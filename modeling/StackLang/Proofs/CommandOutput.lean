import StackLang.CommandLine.Command
import StackLang.Proofs.Correctness

/-!
# What a command leaves behind

A command can write to a file, to standard output and to standard error. Its assembly goes to the
file it names, and to standard output only if nothing else was asked for. A command that fails has
printed nothing but its report, whichever stage it fails at; a file that was written stays if it is
only the run of the program that fails.
-/

namespace StackLang

/-! ## Files -/

namespace FileTree

/-- What stands at a key. -/
def nodeAt? (t : FileTree) (name : String) : Option FileNode :=
  (t.entries.find? fun e => e.1 == name).map (·.2)

/-- A text can be written to the path, and goes to the key. -/
def Accepts (t : FileTree) (path : Path) (name : String) : Prop :=
  t.lookup path = .vacant name ∨
    ∃ node, t.lookup path = .found name node ∧ node.isDirectory = false

/-- Only one key changes. -/
theorem nodeAt?_put (t : FileTree) (name other : String) (node : FileNode) :
    (t.put name node).nodeAt? other = if other = name then some node else t.nodeAt? other := by
  unfold put nodeAt?
  by_cases h : (t.entries.any fun e => e.1 == name) = true
  · have hkey : ((fun e : String × FileNode => e.1 == other) ∘
        fun e => if e.1 == name then (name, node) else e) = fun e => e.1 == other := by
      funext e
      by_cases he : e.1 = name <;> simp [he]
    rw [if_pos h, List.find?_map, hkey, Option.map_map]
    cases hfind : t.entries.find? fun e => e.1 == other with
    | none =>
        rw [if_neg]
        · rfl
        · rintro rfl
          obtain ⟨e, hmem, he⟩ := List.any_eq_true.mp h
          exact List.find?_eq_none.mp hfind e hmem he
    | some e =>
        have he : e.1 = other := by simpa using List.find?_some hfind
        by_cases hother : other = name <;> simp [he, hother]
  · have hnone : t.entries.find? (fun e => e.1 == name) = none := by
      rw [List.find?_eq_none]
      exact fun e hmem he => h (List.any_eq_true.mpr ⟨e, hmem, he⟩)
    rw [if_neg h, List.find?_append]
    by_cases hother : other = name
    · subst hother
      simp [hnone]
    · simp [hother, Ne.symm hother]

section

variable {t : FileTree} {path : Path} {name name' : String}

theorem Accepts.writeText (h : t.Accepts path name) (content : String) :
    t.writeText path content = .ok (t.put name (.text content)) := by
  rcases h with h | ⟨node, h, hnode⟩
  · simp only [FileTree.writeText, h]
  · cases node with
    | directory => cases hnode
    | text _ => simp only [FileTree.writeText, h]
    | bytes _ => simp only [FileTree.writeText, h]

/-- A path leads to one place. -/
theorem Accepts.unique (h : t.Accepts path name) (h' : t.Accepts path name') : name = name' := by
  rcases h with h | ⟨node, h, -⟩
  · rcases h' with h' | ⟨node', h', -⟩
    · exact Lookup.vacant.inj (h.symm.trans h')
    · cases h.symm.trans h'
  · rcases h' with h' | ⟨node', h', -⟩
    · cases h.symm.trans h'
    · exact (Lookup.found.inj (h.symm.trans h')).1

end

end FileTree

/-! ## First characters

Assembly, trees and token dumps can be told apart by the character they start with. -/

theorem toList_intercalate_cons (sep s : String) (rest : List String) :
    ∃ more, (sep.intercalate (s :: rest)).toList = s.toList ++ more := by
  cases rest with
  | nil => exact ⟨[], by simp⟩
  | cons u us =>
      rw [String.intercalate_cons_cons]
      exact ⟨sep.toList ++ (sep.intercalate (u :: us)).toList, by simp⟩

theorem Compilation.head?_assembly {source filename : String} {o : RoutineOptions}
    {k : Compilation} (h : compile source filename o = .ok k) :
    k.assembly.toList.head? = some '.' := by
  obtain ⟨frame, -, hr⟩ := Compilation.exists_housed h
  obtain ⟨more, hmore⟩ := toList_intercalate_cons "\n" Line.intelDirective.text
    ((k.program.code o frame).tail.map fun e => e.line.text)
  have hcode : ((k.program.code o frame).map fun e => e.line.text) =
      Line.intelDirective.text :: ((k.program.code o frame).tail.map fun e => e.line.text) := rfl
  rw [Compilation.assembly, Routine.text, hr, String.toList_append]
  dsimp only
  rw [hcode, hmore]
  rfl

theorem Program.head?_tree (p : Program) : p.tree.toList.head? = some 'P' := by
  unfold Program.tree
  dsimp only
  obtain ⟨more, hmore⟩ := toList_intercalate_cons "\n" _ (treeOfAll 1 p.statements)
  rw [hmore]
  simp [toString]

theorem Token.head?_dump (t : Token) : t.dump.toList.head? = some 'T' := by
  unfold Token.dump
  cases t.lexeme <;> simp [toString]

/-! ## Runs that fail -/

/-- A program that divides in vain does not get through its run. -/
theorem exists_runListing_error {source filename : String} {p : Program} {o : RoutineOptions}
    (hp : parseSource source filename = .ok p) (ho : o.fault? = none) (hentry : EntryName o.entry)
    (hroom : ∀ r, p.routine o = .ok r → r.frame + 8 * deepest r.code + 16 ≤ 2 ^ 64) {fuel : Nat}
    (hvalue : p.value fuel = some (.error .division)) :
    ∃ k f, compile source filename o = .ok k ∧
      runListing k.assembly (some o.entry) = .error f := by
  obtain ⟨k, l, hk, hl, -, -, I⟩ := exists_installed hp ho hentry hroom
  obtain ⟨n, hn⟩ := I.concludes fuel
  have hconcludes := hn {}
  rw [hvalue] at hconcludes
  obtain ⟨τ, cause, hτ, -, hfails, -⟩ := hconcludes
  have hstart : l.labels.find? (l.startLabel (some o.entry)) = some 0 := by
    rw [hentry.startLabel (some o.entry) rfl]
    exact p.entry_label I.loaded
  cases hrun : l.run {} (some o.entry) {} with
  | error fault s => exact ⟨k, fault.failure l.filename, hk, by simp only [runListing, hl, hrun]⟩
  | ok r s =>
      rw [Listing.run_of_defined hstart, Listing.answer_ok_iff] at hrun
      exact absurd hrun.1 (hτ.runFor_ne_ok hfails _ _ _ s)

namespace CommandLine

def tokenLines (tokens : List Token) : String :=
  String.join (tokens.map fun t => t.dump ++ "\n")

theorem head?_tokenLines_ne (tokens : List Token) :
    (tokenLines tokens).toList.head? ≠ some '.' := by
  cases tokens with
  | nil => simp [tokenLines]
  | cons t ts =>
      rw [tokenLines, String.toList_join]
      simp [t.head?_dump]

/-! ## How commands end -/

namespace Command

/-- How the program of a command is to be compiled. -/
def options (c : Command) : RoutineOptions where
  entry := c.entry
  comments := c.comments

section

variable (c : Command) (files : FileTree)

/-- The program of a command compiles. -/
def Compiles (k : Compilation) : Prop :=
  ∃ text filename, c.text files = .ok (text, filename) ∧
    compile text filename c.options = .ok k

/-- The program cannot be read, or not be scanned where its tokens are asked for, or not be
compiled where anything else is. -/
inductive Refuses : Failure → Prop where
  | text {f : Failure} : c.text files = .error f → Refuses f
  | tokens {text filename : String} {f : Failure} : c.text files = .ok (text, filename) →
      c.tokens = true → tokensOf text filename = .error f → Refuses f
  | compile {text filename : String} {f : Failure} : c.text files = .ok (text, filename) →
      c.tokens = false → compile text filename c.options = .error f → Refuses f

/-- The program compiles and is not only to be looked at. -/
structure Assembles (k : Compilation) : Prop where
  compiles : c.Compiles files k
  tokens : c.tokens = false
  ast : c.ast = false

/-- The failure that a command ends with: there is nothing to assemble, or the program fails when
it is run. -/
inductive FailsWith : Failure → Prop where
  | refused {f : Failure} : c.Refuses files f → FailsWith f
  | stopped {k : Compilation} {f : Failure} : c.Assembles files k → c.run = true →
      runListing k.assembly (some c.entry) = .error f → FailsWith f

/-- The files once the assembly is where it belongs. -/
def Deposits (k : Compilation) (files' : FileTree) : Prop :=
  match c.output with
  | none => files' = files
  | some path => ∃ name, files.Accepts path name ∧ files' = files.put name (.text k.assembly)

/-- All that a command can come to. -/
inductive Ends : Outcome → Prop where
  | refused {f : Failure} : c.Refuses files f → Ends (failed files "" f)
  | tokens {text filename : String} {tokens : List Token} :
      c.text files = .ok (text, filename) → c.tokens = true →
      tokensOf text filename = .ok tokens →
      Ends { stdout := tokenLines tokens, files := files }
  | tree {k : Compilation} : c.Compiles files k → c.tokens = false → c.ast = true →
      Ends { stdout := k.program.tree ++ "\n", files := files }
  | stopped {k : Compilation} {files' : FileTree} {f : Failure} : c.Assembles files k →
      c.Deposits files k files' → c.run = true →
      runListing k.assembly (some c.entry) = .error f → Ends (failed files' "" f)
  | exited {k : Compilation} {files' : FileTree} {r : RunResult} : c.Assembles files k →
      c.Deposits files k files' → c.run = true →
      runListing k.assembly (some c.entry) = .ok r →
      Ends { exitCode := r.exitStatus, files := files' }
  | assembled {k : Compilation} {files' : FileTree} : c.Assembles files k →
      c.Deposits files k files' → c.run = false →
      Ends { stdout := if c.output.isSome then "" else k.assembly, files := files' }

end

variable {c : Command} {files files' : FileTree} {k k' : Compilation} {o : Outcome}

theorem fault?_options (h : isSymbolName c.entry = true) : c.options.fault? = none := by
  have hne : c.entry.isEmpty = false := by
    by_contra hempty
    rw [Bool.not_eq_false, String.isEmpty_iff] at hempty
    rw [hempty] at h
    cases h
  simp [options, RoutineOptions.fault?, hne, wordSize]

theorem logText_of_quiet (h : c.verbose = false) (events : List Event) :
    logText c events = "" := by
  rw [logText, h]
  rfl

theorem remark_of_quiet (h : c.verbose = false) (text : String) : c.remark text = "" := by
  rw [remark, h]
  rfl

/-- What is left to do once the assembly is where it belongs. -/
theorem Assembles.ends_finish (h : c.Assembles files k) (hfiles : c.Deposits files k files')
    (hnative : c.native = false) (hverbose : c.verbose = false) (tools : Tools) :
    c.Ends files (c.finish tools files' "" (if c.output.isSome || c.run then "" else k.assembly)
      k.assembly) := by
  unfold finish
  cases hrun : c.run with
  | true =>
      cases hresult : runListing k.assembly (some c.entry) with
      | error f => exact .stopped h hfiles hrun hresult
      | ok r =>
          simp only [if_true, Bool.or_true, logText_of_quiet hverbose]
          exact .exited h hfiles hrun hresult
  | false =>
      simp only [hnative, Bool.or_false, Bool.false_eq_true, if_false]
      exact .assembled h hfiles hrun

theorem Assembles.ends_deliver (h : c.Assembles files k) (hnative : c.native = false)
    (hverbose : c.verbose = false)
    (houtput : ∀ path, c.output = some path → ∃ name, files.Accepts path name) (tools : Tools) :
    c.Ends files (c.deliver tools files "" k.assembly) := by
  unfold deliver
  cases hpath : c.output with
  | none =>
      have hsame : c.Deposits files k files := by rw [Deposits, hpath]
      have hends := h.ends_finish hsame hnative hverbose tools
      simpa only [hpath, hnative, Option.isSome_none, Bool.false_or, Bool.or_false] using hends
  | some path =>
      obtain ⟨name, haccepts⟩ := houtput path hpath
      have hput : c.Deposits files k (files.put name (.text k.assembly)) := by
        rw [Deposits, hpath]
        exact ⟨name, haccepts, rfl⟩
      have hends := h.ends_finish hput hnative hverbose tools
      simpa only [hpath, haccepts.writeText, remark_of_quiet hverbose, Option.isSome_some,
        Bool.true_or, if_true, String.append_empty] using hends

theorem ends_execute (hentry : isSymbolName c.entry = true) (hnative : c.native = false)
    (hverbose : c.verbose = false)
    (houtput : ∀ path, c.output = some path → ∃ name, files.Accepts path name) (tools : Tools) :
    c.Ends files (c.execute tools files) := by
  unfold execute
  cases htext : c.text files with
  | error f => exact .refused (.text htext)
  | ok source =>
      obtain ⟨text, filename⟩ := source
      simp only
      cases htokens : c.tokens with
      | true =>
          simp only [if_true, printTokens]
          cases hscan : tokensOf text filename with
          | error f => exact .refused (.tokens htext htokens hscan)
          | ok tokens => exact .tokens htext htokens hscan
      | false =>
          have hcompile : compile text filename c.options =
              (compileWithEvents text filename { entry := c.entry, comments := c.comments }).2 := by
            rw [compile, fault?_options hentry]
            rfl
          simp only [Bool.false_eq_true, if_false, logText_of_quiet hverbose,
            remark_of_quiet hverbose]
          rw [← hcompile]
          cases hk : compile text filename c.options with
          | error f => exact .refused (.compile htext htokens hk)
          | ok k =>
              have hcompiles : c.Compiles files k := ⟨text, filename, htext, hk⟩
              cases hast : c.ast with
              | true => exact .tree hcompiles htokens hast
              | false =>
                  exact Assembles.ends_deliver ⟨hcompiles, htokens, hast⟩ hnative hverbose houtput
                    tools

/-! ## Order -/

theorem Compiles.unique (h : c.Compiles files k) (h' : c.Compiles files k') : k = k' := by
  obtain ⟨text, filename, htext, hk⟩ := h
  obtain ⟨text', filename', htext', hk'⟩ := h'
  rw [htext] at htext'
  cases htext'
  exact Except.ok.inj (hk.symm.trans hk')

/-- A text that starts in another way is not the assembly. -/
theorem Compiles.ne_assembly (h : c.Compiles files k) {text : String}
    (htext : text.toList.head? ≠ some '.') : text ≠ k.assembly := by
  obtain ⟨source, filename, -, hk⟩ := h
  rintro rfl
  exact htext (Compilation.head?_assembly hk)

theorem Refuses.unique {f f' : Failure} (h : c.Refuses files f) (h' : c.Refuses files f') :
    f = f' := by
  cases h with
  | text hfail =>
      cases h' with
      | text hfail' => exact Except.error.inj (hfail.symm.trans hfail')
      | tokens hread _ _ => cases hread.symm.trans hfail
      | compile hread _ _ => cases hread.symm.trans hfail
  | tokens hread hasked hfail =>
      cases h' with
      | text hfail' => cases hread.symm.trans hfail'
      | tokens hread' _ hfail' =>
          cases hread.symm.trans hread'
          exact Except.error.inj (hfail.symm.trans hfail')
      | compile _ hnot _ => cases hasked.symm.trans hnot
  | compile hread hnot hfail =>
      cases h' with
      | text hfail' => cases hread.symm.trans hfail'
      | tokens _ hasked _ => cases hnot.symm.trans hasked
      | compile hread' _ hfail' =>
          cases hread.symm.trans hread'
          exact Except.error.inj (hfail.symm.trans hfail')

/-- What compiles is refused only where its tokens are asked for. -/
theorem Refuses.not_compiles {f : Failure} (h : c.Refuses files f) (htokens : c.tokens = false) :
    ¬ c.Compiles files k := by
  rintro ⟨text, filename, htext, hk⟩
  cases h with
  | text hfail => cases htext.symm.trans hfail
  | tokens _ hasked _ => cases htokens.symm.trans hasked
  | compile hread _ hfail =>
      cases htext.symm.trans hread
      cases hk.symm.trans hfail

theorem Refuses.not_assembles {f : Failure} (h : c.Refuses files f) : ¬ c.Assembles files k :=
  fun ha => h.not_compiles ha.tokens ha.compiles

theorem FailsWith.unique {f f' : Failure} (h : c.FailsWith files f) (h' : c.FailsWith files f') :
    f = f' := by
  cases h with
  | refused h =>
      cases h' with
      | refused h' => exact h.unique h'
      | stopped ha' _ _ => exact absurd ha' h.not_assembles
  | stopped ha _ hfail =>
      cases h' with
      | refused h' => exact absurd ha h'.not_assembles
      | stopped ha' _ hfail' =>
          obtain rfl := ha.compiles.unique ha'.compiles
          exact Except.error.inj (hfail.symm.trans hfail')

/-- The assembly is all that is written, and goes to the output path. -/
theorem Deposits.nodeAt? (h : c.Deposits files k files') (name : String) :
    files'.nodeAt? name = files.nodeAt? name ∨
      ∃ path, c.output = some path ∧ files.Accepts path name ∧
        files'.nodeAt? name = some (.text k.assembly) := by
  unfold Deposits at h
  cases hpath : c.output with
  | none =>
      rw [hpath] at h
      exact Or.inl (congrArg (·.nodeAt? name) h)
  | some path =>
      rw [hpath] at h
      obtain ⟨key, haccepts, rfl⟩ := h
      rw [FileTree.nodeAt?_put]
      by_cases hname : name = key
      · subst hname
        exact Or.inr ⟨path, rfl, haccepts, if_pos rfl⟩
      · exact Or.inl (if_neg hname)

/-- What a command may leave behind. -/
structure Orderly (c : Command) (files : FileTree) (o : Outcome) : Prop where
  /-- Nothing is written without an output path and assembly to put there. -/
  kept : c.output = none ∨ (∀ k, ¬ c.Assembles files k) → o.files = files
  /-- Files change only for the assembly, and only where the output path leads. -/
  changed : ∀ name, o.files.nodeAt? name ≠ files.nodeAt? name →
    ∃ path k, c.output = some path ∧ files.Accepts path name ∧ c.Assembles files k
  /-- The assembly is written, whatever comes of running it. -/
  written : ∀ path name k, c.output = some path → files.Accepts path name →
    c.Assembles files k → o.files.nodeAt? name = some (.text k.assembly)
  /-- The assembly is printed if nothing else is to be done with it. -/
  printed : ∀ k, c.Compiles files k → (o.stdout = k.assembly ↔
    c.output = none ∧ c.tokens = false ∧ c.ast = false ∧ c.run = false)
  /-- A failure is all that is told. -/
  failing : ∀ f, c.FailsWith files f →
    o.stdout = "" ∧ o.stderr = f.notice ++ "\n" ∧ o.exitCode = f.exitCode
  /-- Without a failure there is nothing to report. -/
  silent : (∀ f, ¬ c.FailsWith files f) → o.stderr = ""
  /-- A program that was run and halted gives its exit code. -/
  exiting : ∀ k r, c.Assembles files k → c.run = true →
    runListing k.assembly (some c.entry) = .ok r → o.exitCode = r.exitStatus

namespace Ends

/-- The files are as before, or the assembly is where it belongs. -/
theorem files_cases (h : c.Ends files o) :
    (∀ k, ¬ c.Assembles files k) ∧ o.files = files ∨
      ∃ k, c.Assembles files k ∧ c.Deposits files k o.files := by
  cases h with
  | refused hr => exact Or.inl ⟨fun _ => hr.not_assembles, rfl⟩
  | tokens _ htokens _ =>
      refine Or.inl ⟨fun k ha => ?_, rfl⟩
      cases ha.tokens.symm.trans htokens
  | tree _ _ hast =>
      refine Or.inl ⟨fun k ha => ?_, rfl⟩
      cases ha.ast.symm.trans hast
  | stopped ha hd _ _ => exact Or.inr ⟨_, ha, hd⟩
  | exited ha hd _ _ => exact Or.inr ⟨_, ha, hd⟩
  | assembled ha hd _ => exact Or.inr ⟨_, ha, hd⟩

theorem kept (h : c.Ends files o) (hnone : c.output = none ∨ ∀ k, ¬ c.Assembles files k) :
    o.files = files := by
  rcases h.files_cases with ⟨-, hsame⟩ | ⟨k, ha, hd⟩
  · exact hsame
  · have hpath : c.output = none := hnone.resolve_right fun hno => hno k ha
    rw [Deposits, hpath] at hd
    exact hd

theorem changed (h : c.Ends files o) (name : String)
    (hname : o.files.nodeAt? name ≠ files.nodeAt? name) :
    ∃ path k, c.output = some path ∧ files.Accepts path name ∧ c.Assembles files k := by
  rcases h.files_cases with ⟨-, hsame⟩ | ⟨k, ha, hd⟩
  · rw [hsame] at hname
    exact absurd rfl hname
  · obtain ⟨path, hpath, haccepts, -⟩ := (hd.nodeAt? name).resolve_left hname
    exact ⟨path, k, hpath, haccepts, ha⟩

theorem written (h : c.Ends files o) {path : Path} {name : String} (hpath : c.output = some path)
    (haccepts : files.Accepts path name) (hk : c.Assembles files k) :
    o.files.nodeAt? name = some (.text k.assembly) := by
  rcases h.files_cases with ⟨hno, -⟩ | ⟨k', ha, hd⟩
  · exact absurd hk (hno k)
  · obtain rfl := hk.compiles.unique ha.compiles
    rw [Deposits, hpath] at hd
    obtain ⟨key, hkey, hput⟩ := hd
    rw [hput, FileTree.nodeAt?_put, if_pos (haccepts.unique hkey)]

theorem printed (h : c.Ends files o) (hk : c.Compiles files k) :
    o.stdout = k.assembly ↔
      c.output = none ∧ c.tokens = false ∧ c.ast = false ∧ c.run = false := by
  have hempty : "" ≠ k.assembly := hk.ne_assembly (by simp)
  cases h with
  | refused hr =>
      refine iff_of_false hempty ?_
      rintro ⟨-, htokens, -, -⟩
      exact hr.not_compiles htokens hk
  | tokens _ htokens _ =>
      refine iff_of_false (hk.ne_assembly (head?_tokenLines_ne _)) ?_
      rintro ⟨-, hnot, -, -⟩
      cases hnot.symm.trans htokens
  | @tree k' _ _ hast =>
      have htree : k'.program.tree ++ "\n" ≠ k.assembly := by
        apply hk.ne_assembly
        simp [k'.program.head?_tree]
      refine iff_of_false htree ?_
      rintro ⟨-, -, hnot, -⟩
      cases hnot.symm.trans hast
  | stopped _ _ hrun _ =>
      refine iff_of_false hempty ?_
      rintro ⟨-, -, -, hnot⟩
      cases hnot.symm.trans hrun
  | exited _ _ hrun _ =>
      refine iff_of_false hempty ?_
      rintro ⟨-, -, -, hnot⟩
      cases hnot.symm.trans hrun
  | assembled ha _ hrun =>
      obtain rfl := hk.unique ha.compiles
      cases hpath : c.output with
      | none => simp [ha.tokens, ha.ast, hrun]
      | some path => simp [hempty]

/-- A command fails with a report and nothing else, or ends without one. -/
theorem fails_or_silent (h : c.Ends files o) :
    (∃ f files', c.FailsWith files f ∧ o = failed files' "" f) ∨
      (∀ f, ¬ c.FailsWith files f) ∧ o.stderr = "" := by
  have succeeded : ∀ {k}, c.Assembles files k →
      (∀ f, c.run = true → runListing k.assembly (some c.entry) ≠ .error f) →
      ∀ f, ¬ c.FailsWith files f := by
    rintro k ha hrun f (hr | ⟨ha', hasked, hfail⟩)
    · exact hr.not_assembles ha
    · obtain rfl := ha.compiles.unique ha'.compiles
      exact hrun f hasked hfail
  cases h with
  | refused hr => exact Or.inl ⟨_, _, .refused hr, rfl⟩
  | tokens hread htokens hscan =>
      right
      refine ⟨?_, rfl⟩
      rintro f (hr | ⟨ha, -⟩)
      · cases hr with
        | text hfail => cases hread.symm.trans hfail
        | tokens hread' _ hfail =>
            cases hread.symm.trans hread'
            cases hscan.symm.trans hfail
        | compile _ hnot _ => cases hnot.symm.trans htokens
      · cases ha.tokens.symm.trans htokens
  | tree hk htokens hast =>
      right
      refine ⟨?_, rfl⟩
      rintro f (hr | ⟨ha, -⟩)
      · exact hr.not_compiles htokens hk
      · cases ha.ast.symm.trans hast
  | stopped ha _ hrun hfail => exact Or.inl ⟨_, _, .stopped ha hrun hfail, rfl⟩
  | exited ha _ _ hresult =>
      right
      refine ⟨succeeded ha fun f _ hfail => ?_, rfl⟩
      cases hresult.symm.trans hfail
  | assembled ha _ hrun =>
      right
      refine ⟨succeeded ha fun f hasked _ => ?_, rfl⟩
      cases hrun.symm.trans hasked

theorem failing (h : c.Ends files o) {f : Failure} (hf : c.FailsWith files f) :
    o.stdout = "" ∧ o.stderr = f.notice ++ "\n" ∧ o.exitCode = f.exitCode := by
  rcases h.fails_or_silent with ⟨f', files', hf', ho⟩ | ⟨hnone, -⟩
  · obtain rfl := hf.unique hf'
    rw [ho]
    exact ⟨rfl, by simp [failed], rfl⟩
  · exact absurd hf (hnone f)

theorem silent (h : c.Ends files o) (hnone : ∀ f, ¬ c.FailsWith files f) : o.stderr = "" := by
  rcases h.fails_or_silent with ⟨f, files', hf, -⟩ | ⟨-, hsilent⟩
  · exact absurd hf (hnone f)
  · exact hsilent

theorem exiting (h : c.Ends files o) {r : RunResult} (hk : c.Assembles files k)
    (hrun : c.run = true) (hr : runListing k.assembly (some c.entry) = .ok r) :
    o.exitCode = r.exitStatus := by
  cases h with
  | refused hr => exact absurd hk hr.not_assembles
  | tokens _ htokens _ => cases hk.tokens.symm.trans htokens
  | tree _ _ hast => cases hk.ast.symm.trans hast
  | stopped ha _ _ hfail =>
      obtain rfl := hk.compiles.unique ha.compiles
      cases hr.symm.trans hfail
  | exited ha _ _ hr' =>
      obtain rfl := hk.compiles.unique ha.compiles
      cases hr.symm.trans hr'
      rfl
  | assembled _ _ hnot => cases hnot.symm.trans hrun

end Ends

/-- A command that names a symbol and can write its output, and neither builds natively nor tells
what it does, leaves everything in order. -/
theorem execute_orderly (c : Command) (tools : Tools) (files : FileTree)
    (hentry : isSymbolName c.entry = true) (hnative : c.native = false)
    (hverbose : c.verbose = false)
    (houtput : ∀ path, c.output = some path → ∃ name, files.Accepts path name) :
    c.Orderly files (c.execute tools files) := by
  have hends := ends_execute hentry hnative hverbose houtput tools
  exact {
    kept := hends.kept
    changed := hends.changed
    written := fun _ _ _ => hends.written
    printed := fun _ => hends.printed
    failing := fun _ => hends.failing
    silent := hends.silent
    exiting := fun _ _ => hends.exiting }

/-- Writes and runs a program that divides by zero. -/
def divides : Command where
  source := some "return 1 / 0;"
  output := some (Path.ofString "out.s")
  run := true

/-- The assembly of the program stays though its run fails. -/
theorem execute_orderly_divides :
    ∃ k f, divides.Assembles {} k ∧ divides.FailsWith {} f ∧
      (divides.execute .absent {}).files.nodeAt? "out.s" = some (.text k.assembly) ∧
      (divides.execute .absent {}).stdout = "" ∧
      (divides.execute .absent {}).stderr = f.notice ++ "\n" := by
  have haccepts : FileTree.Accepts {} (Path.ofString "out.s") "out.s" :=
    Or.inl (by decide +kernel)
  have horderly := execute_orderly divides .absent {} (by decide +kernel) rfl rfl
    (by rintro path ⟨⟩; exact ⟨_, haccepts⟩)
  obtain ⟨p, hp, hvalue, hroom⟩ :=
    exists_program "return 1 / 0;" 9 (.error .division) (by decide +kernel)
  obtain ⟨k, f, hk, hfail⟩ := exists_runListing_error hp rfl
    (EntryName.of_head (by decide) (by decide)) hroom hvalue
  have hassembles : divides.Assembles {} k := ⟨⟨_, _, rfl, hk⟩, rfl, rfl⟩
  have hfails : divides.FailsWith {} f := .stopped hassembles rfl hfail
  have hfailing := horderly.failing f hfails
  exact ⟨k, f, hassembles, hfails, horderly.written _ _ k rfl haccepts hassembles,
    hfailing.1, hfailing.2.1⟩

end Command

end CommandLine

end StackLang
