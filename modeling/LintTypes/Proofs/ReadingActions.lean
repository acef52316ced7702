import LintTypes.Command.Exit
import LintTypes.Proofs.BundleFiles

/-!
# Actions that only read

Options and rules are found without touching a file: such an action leaves every tree as it is
(`OnlyReads`). That is kept by going on with what was read, so it holds of a search for paths, by
induction on its steps, and of all that is loaded. A command that got its inputs therefore works on
the tree that it was started on, and any other command gets the same inputs there.
-/

namespace LintTypes.FileTree

variable {α β ε : Type}

/-- The action leaves every tree as it is. -/
def OnlyReads (action : StateM FileTree α) : Prop := ∀ tree, (action tree).2 = tree

theorem OnlyReads.pure (a : α) : OnlyReads (pure a) := fun _ => rfl

/-- Two actions that only read do so one after the other. -/
theorem OnlyReads.bind {action : StateM FileTree α} {next : α → StateM FileTree β}
    (h : OnlyReads action) (hnext : ∀ a, OnlyReads (next a)) : OnlyReads (action >>= next) := by
  intro tree
  rw [bind_eq, hnext, h]

/-- An action that may fail is gone on with only if it did not. -/
theorem OnlyReads.bindExcept {action : ExceptT ε (StateM FileTree) α}
    {next : α → ExceptT ε (StateM FileTree) β} (h : OnlyReads action.run)
    (hnext : ∀ a, OnlyReads (next a).run) : OnlyReads (action >>= next).run := by
  rw [ExceptT.run_bind]
  refine h.bind fun result => ?_
  cases result with
  | ok a => exact hnext a
  | error error => exact .pure _

/-- An action that only reads may be done for each of a list. -/
theorem reading_mapM {f : α → ExceptT ε (StateM FileTree) β} (h : ∀ a, OnlyReads (f a).run)
    (xs : List α) : OnlyReads (xs.mapM f).run := by
  induction xs with
  | nil =>
    rw [List.mapM_nil]
    exact .pure _
  | cons x xs ih =>
    rw [List.mapM_cons]
    exact (h x).bindExcept fun _ => ih.bindExcept fun _ => .pure _

theorem reading_read (path : String) :
    OnlyReads (FileAccess.read path : StateM FileTree (Except FileError String)) := fun _ => rfl

theorem reading_isPresent (path : String) :
    OnlyReads (FileAccess.isPresent path : StateM FileTree Bool) := fun _ => rfl

theorem reading_names? (path : String) :
    OnlyReads (FileAccess.names? path : StateM FileTree (Option (List String))) := fun _ => rfl

theorem reading_isDirectory (path : String) :
    OnlyReads (FileAccess.isDirectory path : StateM FileTree Bool) :=
  (reading_names? path).bind fun _ => .pure _

end LintTypes.FileTree

/-! ## Searches -/

namespace LintTypes.Pattern

open FileTree

/-- Gathering what is found at several places only reads if each search does. -/
theorem reading_gather {α : Type} {search : α → StateM FileTree (List String)}
    (h : ∀ place, OnlyReads (search place)) (places : List α) :
    OnlyReads (gather search places) := by
  induction places with
  | nil => exact .pure _
  | cons place places ih => exact (h place).bind fun _ => ih.bind fun _ => .pure _

theorem reading_hasEntry (directory name path : String) :
    OnlyReads (hasEntry directory name path : StateM FileTree Bool) := by
  unfold hasEntry
  split
  · exact reading_isDirectory directory
  · exact reading_isPresent path

/-- Behind a segment `**` the next one is tried at once, since the former may stand for no
directory. -/
theorem reading_others {search : List Segment → String → StateM FileTree (List String)}
    (h : ∀ segments path, OnlyReads (search segments path)) (name path : String)
    (found inside : List String) (others : List Segment) : OnlyReads (
      match others with
      | [] => pure found
      | segment :: segments => do
        if segment.accepts name then return inside ++ (← search segments path)
        else return inside) := by
  split
  · exact .pure _
  · split
    · exact (h _ _).bind fun _ => .pure _
    · exact .pure _

/-- An entry is looked at by its name, and by what it is. -/
theorem reading_visit {search : List Segment → String → StateM FileTree (List String)}
    (h : ∀ segments path, OnlyReads (search segments path)) (directory name : String)
    (segments : List Segment) : OnlyReads (visit search directory name segments) := by
  unfold visit
  split
  · exact .pure _
  · refine (reading_isDirectory _).bind fun descends => ?_
    dsimp only
    split
    · exact (h _ _).bind fun inside => reading_others h name _ _ inside _
    · exact OnlyReads.bind (.pure _) fun inside => reading_others h name _ _ inside _
  · split
    · exact h _ _
    · exact .pure _

/-- A search for the paths of a pattern only reads. The induction is on its steps, since each entry
is searched with one step less. -/
theorem reading_search (onlyDirectories : Bool) (steps : Nat) (segments : List Segment)
    (path : String) :
    OnlyReads (search onlyDirectories steps segments path : StateM FileTree (List String)) := by
  induction steps generalizing segments path with
  | zero =>
    cases segments with
    | nil => exact (reading_isDirectory path).bind fun _ => .pure _
    | cons segment segments => exact .pure _
  | succ steps ih =>
    cases segments with
    | nil => exact (reading_isDirectory path).bind fun _ => .pure _
    | cons segment segments =>
      unfold search
      dsimp only
      split
      · refine (reading_hasEntry _ _ _).bind fun found => ?_
        split
        · exact ih _ _
        · exact .pure _
      · refine (reading_names? path).bind fun names => ?_
        split
        · exact .pure _
        · have hentries := reading_gather
            (fun name => reading_visit ih path name (segment :: segments))
          exact (hentries _).bind fun _ =>
            (reading_gather (fun name => ih _ _) _).bind fun _ => .pure _

theorem reading_paths (pattern : Pattern) :
    OnlyReads (pattern.paths : StateM FileTree (List String)) :=
  (reading_search _ _ _ _).bind fun _ => .pure _

end LintTypes.Pattern

/-! ## Documents -/

namespace LintTypes

open FileTree

theorem reading_loadText (path : String) :
    OnlyReads (loadText path : ExceptT Error (StateM FileTree) String).run :=
  (reading_read path).bind fun _ => .pure _

/-- Options are loaded without a trace, -/
theorem Options.reading_load (path : String) :
    OnlyReads (Options.load path : ExceptT Error (StateM FileTree) Options).run := by
  refine (reading_loadText path).bindExcept fun text => ?_
  split <;> exact .pure _

/-- and so is a rules document. -/
theorem Rules.reading_load (path : String) :
    OnlyReads (Rules.load path : ExceptT Error (StateM FileTree) Rules).run := by
  refine (reading_loadText path).bindExcept fun text => ?_
  split <;> exact .pure _

/-- Loading several documents only reads, also when it ends early. -/
theorem Rules.reading_loadOnto (rules : Rules) (paths : List String) :
    OnlyReads (Rules.loadOnto rules paths : ExceptT Error (StateM FileTree) Rules).run := by
  induction paths generalizing rules with
  | nil => exact .pure _
  | cons path paths ih =>
    exact (Rules.reading_load path).bindExcept fun _ =>
      OnlyReads.bindExcept (.pure _) fun _ => ih _

end LintTypes

/-! ## Inputs -/

namespace LintTypes.Command

open FileTree

theorem reading_attempt {α : Type} {action : ExceptT LintTypes.Error (StateM FileTree) α}
    (h : OnlyReads action.run) : OnlyReads (attempt action).run :=
  h.bind fun _ => .pure _

/-- An input is a path or a pattern; in either case files are only looked for. -/
theorem reading_resolveInput (input : String) :
    OnlyReads (resolveInput input : Attempt (StateM FileTree) (List String)).run := by
  unfold resolveInput
  split
  · exact .pure _
  · split
    · exact .pure _
    · rename_i pattern hpattern
      have hpaths : OnlyReads (liftM (pattern.paths : StateM FileTree (List String)) :
          Attempt (StateM FileTree) (List String)).run :=
        pattern.reading_paths.bind fun _ => .pure _
      refine hpaths.bindExcept fun paths => ?_
      split <;> exact .pure _

/-- The options of a run are found without writing, -/
theorem RunInputs.reading_options (inputs : RunInputs) :
    OnlyReads (inputs.options : Attempt (StateM FileTree) Options).run := by
  unfold RunInputs.options
  dsimp only
  split
  · exact (reading_attempt (Options.reading_load _)).bindExcept fun _ => .pure _
  · exact OnlyReads.bindExcept (.pure _) fun _ => .pure _

/-- and so are its rules. -/
theorem RunInputs.reading_rules (inputs : RunInputs) :
    OnlyReads (inputs.rules : Attempt (StateM FileTree) Rules).run :=
  (reading_mapM reading_resolveInput _).bindExcept fun _ =>
    reading_attempt (Rules.reading_loadOnto _ _)

end LintTypes.Command
