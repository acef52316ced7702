import LintTypes.Proofs.BundleFiles

/-!
# Runs that fail

What a run on a set of rules leaves behind, however it ends. A rule that is refused stops it before
any file is touched. Otherwise the folder is made, then the rules' files are written, and the index
last: `WriteOutcome` lists the ways in which this can end. Up to the index only directories on the
way to the folder and the rules' files are changed, and no rule's file is at the place of the index;
so a run that fails before it makes, changes and takes away no file there, in whichever order the
files are written and however many of them. What is left of the place is the case of a folder whose
own path leads through it, as `index.d.ts/../rules` does: making that folder puts a directory where
the index would be.
-/

namespace LintTypes.Bundle

open FileTree

variable {dist : String} {files : List DeclarationFile} {tree between tree' : FileTree}
  {declarer : Declarer} {options : Options} {rules : Rules} {bundle : Bundle}

/-! ## Refused rules -/

/-- The rule is refused with the error: its name is empty, or it cannot be declared. -/
inductive Refused (declarer : Declarer) (style : Style) (name : String) (rule : Rule) :
    Error → Prop where
  | name (h : name = "") : Refused declarer style name rule (.invalidRuleName name)
  | source {cause : Error} (hname : name ≠ "")
      (h : rule.source declarer style (Names.typeIdentifier name) = .error cause) :
      Refused declarer style name rule (.inRule name cause)

/-- A rule has no file just if it is refused. -/
theorem ofRule_eq_error_iff {style : Style} {name : String} {rule : Rule} {error : Error} :
    DeclarationFile.ofRule declarer style name rule = .error error ↔
      Refused declarer style name rule error := by
  unfold DeclarationFile.ofRule Rule.checkName
  by_cases hname : name = ""
  · have hempty : name.isEmpty = true := by simpa using hname
    rw [if_pos hempty]
    constructor
    · rintro ⟨⟩
      exact .name hname
    · rintro (_ | ⟨hne⟩)
      · rfl
      · exact absurd hname hne
  · have hempty : ¬ name.isEmpty = true := by simpa using hname
    rw [if_neg hempty]
    cases hsource : rule.source declarer style (Names.typeIdentifier name) with
    | ok source =>
      simp only [bind, Except.bind, hsource]
      constructor
      · rintro ⟨⟩
      · rintro (heq | ⟨-, hcause⟩)
        · exact absurd heq hname
        · rw [hsource] at hcause
          cases hcause
    | error cause =>
      simp only [bind, Except.bind, hsource]
      constructor
      · rintro ⟨⟩
        exact .source hname hsource
      · rintro (heq | ⟨-, hcause⟩)
        · exact absurd heq hname
        · rw [hsource] at hcause
          cases hcause
          rfl

/-- What fails for a list fails for a member of it, and with its error. -/
theorem mem_of_mapM_eq_error {ε α β : Type} {f : α → Except ε β} {xs : List α} {error : ε}
    (h : xs.mapM f = .error error) : ∃ x ∈ xs, f x = .error error := by
  induction xs with
  | nil =>
    rw [List.mapM_nil] at h
    cases h
  | cons x xs ih =>
    rw [List.mapM_cons] at h
    cases hx : f x with
    | error problem =>
      rw [hx] at h
      cases h
      exact ⟨x, List.mem_cons_self .., hx⟩
    | ok y =>
      cases hxs : xs.mapM f with
      | ok ys =>
        rw [hx, hxs] at h
        cases h
      | error problem =>
        rw [hx, hxs] at h
        cases h
        obtain ⟨x, hmem, hfails⟩ := ih hxs
        exact ⟨x, List.mem_cons_of_mem _ hmem, hfails⟩

/-- A bundle is made unless a rule is refused, and then the error is that of such a rule. -/
theorem ofRules_refused {entry : String × Rule} {error : Error} (hmem : entry ∈ rules)
    (hrefused : Refused declarer options.style entry.1 entry.2 error) :
    ∃ culprit ∈ rules, ∃ problem, Refused declarer options.style culprit.1 culprit.2 problem ∧
      ofRules declarer options rules = .error problem := by
  have hfails := ofRule_eq_error_iff.2 hrefused
  unfold ofRules
  generalize hmade : rules.mapM (m := Except Error) _ = made
  cases made with
  | ok files =>
    obtain ⟨file, -, hfile⟩ := (Schema.forall₂_exists (Rule.mapM_ok_iff.1 hmade)).1 entry hmem
    cases hfails.symm.trans hfile
  | error problem =>
    obtain ⟨culprit, hculprit, hproblem⟩ := mem_of_mapM_eq_error hmade
    exact ⟨culprit, hculprit, problem, ofRule_eq_error_iff.1 hproblem, rfl⟩

theorem not_refused {style : Style} {name text : String} {rule : Rule} (hname : name ≠ "")
    (hsource : rule.source declarer style (Names.typeIdentifier name) = .ok text) (error : Error) :
    ¬ Refused declarer style name rule error := by
  rintro (hempty | ⟨-, hcause⟩)
  · exact hname hempty
  · cases hsource.symm.trans hcause

/-- Rules of which none is refused have a bundle. -/
theorem exists_ofRules
    (h : ∀ entry ∈ rules, ∀ error, ¬ Refused declarer options.style entry.1 entry.2 error) :
    ∃ bundle, ofRules declarer options rules = .ok bundle := by
  unfold ofRules
  generalize hmade : rules.mapM (m := Except Error) _ = made
  cases made with
  | ok files => exact ⟨_, rfl⟩
  | error problem =>
    obtain ⟨culprit, hculprit, hproblem⟩ := mem_of_mapM_eq_error hmade
    exact absurd (ofRule_eq_error_iff.1 hproblem) (h culprit hculprit problem)

/-- If the bundle cannot be made, then the tree is as it was. -/
theorem run_generate_error {error : Error} (h : ofRules declarer options rules = .error error)
    (tree : FileTree) : run (generate declarer options rules) tree = (.error error, tree) := by
  rw [generate, run_bind, h]
  rfl

/-- If it can, then it is written. -/
theorem run_generate_ok (h : ofRules declarer options rules = .ok bundle) (tree : FileTree) :
    run (generate declarer options rules) tree = run (bundle.write options.distFolder) tree := by
  rw [generate, run_bind, h]
  rfl

/-! ## Writing -/

theorem run_onPath_write (path text : String) (tree : FileTree) :
    run (onPath path (FileAccess.write path text)) tree =
      match tree.write path text with
      | .ok tree' => (.ok (), tree')
      | .error error => (.error (.io path error), tree) := by
  have hwrite : (FileAccess.write path text : Action Unit) tree = commit (·.write path text) tree :=
    rfl
  rw [run_onPath, hwrite, commit]
  cases tree.write path text <;> rfl

theorem run_writeRule (dist : String) (file : DeclarationFile) (tree : FileTree) :
    run (writeRule dist file) tree =
      match tree.write (rulePath dist file) file.source with
      | .ok tree' => (.ok (rulePath dist file), tree')
      | .error error => (.error (.io (rulePath dist file) error), tree) := by
  rw [writeRule, run_bind, run_onPath_write]
  cases tree.write (rulePath dist file) file.source <;> rfl

/-- The files are all written, or one cannot be written after those before it were. -/
inductive FilesOutcome (dist : String) (tree : FileTree) (files : List DeclarationFile) :
    Except Error (List String) × FileTree → Prop where
  | done {tree' : FileTree} (h : Writes dist files tree tree') :
      FilesOutcome dist tree files (.ok (files.map (rulePath dist)), tree')
  | failed {front back : List DeclarationFile} {file : DeclarationFile} {written : FileTree}
      {error : FileError} (hsplit : files = front ++ file :: back)
      (hs : Writes dist front tree written)
      (h : written.write (rulePath dist file) file.source = .error error) :
      FilesOutcome dist tree files (.error (.io (rulePath dist file) error), written)

/-- The files are written one by one, until one of them cannot be. -/
theorem filesOutcome (dist : String) (files : List DeclarationFile) (tree : FileTree) :
    FilesOutcome dist tree files (run (files.mapM (writeRule dist)) tree) := by
  induction files generalizing tree with
  | nil => exact .done .nil
  | cons file files ih =>
    rw [List.mapM_cons, run_bind, run_writeRule]
    cases hfile : tree.write (rulePath dist file) file.source with
    | error error => exact .failed (List.nil_append _).symm .nil hfile
    | ok between =>
      have hothers := ih between
      dsimp only
      rw [run_bind]
      generalize run (files.mapM (writeRule dist)) between = outcome at hothers ⊢
      cases hothers with
      | done hs => exact .done (.cons hfile hs)
      | failed hsplit hs h =>
        subst hsplit
        exact .failed (List.cons_append ..).symm (.cons hfile hs) h

/-- The ways in which writing a bundle ends. -/
inductive WriteOutcome (bundle : Bundle) (dist : String) (tree : FileTree) :
    Except Error Placement × FileTree → Prop where
  | folder {error : FileError} {start : FileTree}
      (h : makeFolder dist tree = (.error error, start)) :
      WriteOutcome bundle dist tree (.error (.io (rulesFolder dist) error), start)
  | file {start written : FileTree} {error : Error}
      (hfolder : makeFolder dist tree = (.ok (), start))
      (h : FilesOutcome dist start bundle.files (.error error, written)) :
      WriteOutcome bundle dist tree (.error error, written)
  | index {start written : FileTree} {error : FileError}
      (hfolder : makeFolder dist tree = (.ok (), start))
      (hs : Writes dist bundle.files start written)
      (h : written.write (indexPath dist) bundle.index = .error error) :
      WriteOutcome bundle dist tree (.error (.io (indexPath dist) error), written)
  | done {start written tree' : FileTree}
      (hfolder : makeFolder dist tree = (.ok (), start))
      (hs : Writes dist bundle.files start written)
      (h : written.write (indexPath dist) bundle.index = .ok tree') :
      WriteOutcome bundle dist tree
        (.ok ⟨bundle.files.map (rulePath dist), indexPath dist⟩, tree')

/-- First the folder is made, and then all else follows. -/
theorem run_write_eq (bundle : Bundle) (dist : String) (tree : FileTree) :
    run (bundle.write dist) tree =
      match makeFolder dist tree with
      | (.error error, start) => (.error (.io (rulesFolder dist) error), start)
      | (.ok (), start) =>
        run (do
          let ruleFiles ← bundle.files.mapM (writeRule dist)
          onPath (indexPath dist) (FileAccess.write (indexPath dist) bundle.index)
          return { ruleFiles, indexFile := indexPath dist }) start := by
  have hfolder : run (onPath (rulesFolder dist) (makeFolder dist)) tree =
      ((makeFolder dist tree).1.mapError (.io (rulesFolder dist)), (makeFolder dist tree).2) := rfl
  rw [write, run_bind, hfolder]
  obtain ⟨error | ⟨⟩, start⟩ := makeFolder dist tree <;> rfl

/-- There are no other ways in which writing a bundle ends. -/
theorem writeOutcome (bundle : Bundle) (dist : String) (tree : FileTree) :
    WriteOutcome bundle dist tree (run (bundle.write dist) tree) := by
  rw [run_write_eq]
  cases hfolder : makeFolder dist tree with
  | mk result start =>
    cases result with
    | error error => exact .folder hfolder
    | ok =>
      have hfiles := filesOutcome dist bundle.files start
      dsimp only
      rw [run_bind]
      generalize run (bundle.files.mapM (writeRule dist)) start = outcome at hfiles ⊢
      obtain ⟨error | paths, written⟩ := outcome
      · exact .file hfolder hfiles
      · cases hfiles with
        | done hs =>
          dsimp only
          rw [run_bind, run_onPath_write]
          cases hindex : written.write (indexPath dist) bundle.index with
          | ok tree' => exact .done hfolder hs hindex
          | error error => exact .index hfolder hs hindex

/-! ## What is changed -/

/-- Some of the files were written, in any order. -/
inductive PartlyWritten (dist : String) (files : List DeclarationFile) :
    FileTree → FileTree → Prop where
  | start (tree : FileTree) : PartlyWritten dist files tree tree
  | next {file : DeclarationFile} {tree between tree' : FileTree} (hmem : file ∈ files)
      (hs : PartlyWritten dist files tree between)
      (h : between.write (rulePath dist file) file.source = .ok tree') :
      PartlyWritten dist files tree tree'

theorem PartlyWritten.trans (hs : PartlyWritten dist files tree between)
    (hs' : PartlyWritten dist files between tree') : PartlyWritten dist files tree tree' := by
  induction hs' with
  | start => exact hs
  | next hmem _ h ih => exact .next hmem (ih hs) h

theorem Writes.partly (hs : Writes dist files tree tree') {all : List DeclarationFile}
    (hall : files ⊆ all) : PartlyWritten dist all tree tree' := by
  induction hs with
  | nil => exact .start _
  | @cons file files tree between _ h _ ih =>
    obtain ⟨hmem, hothers⟩ := List.cons_subset.1 hall
    exact (PartlyWritten.next hmem (.start tree) h).trans (ih hothers)

/-- Files that were written are changed at their places and nowhere else. -/
theorem PartlyWritten.changed (hs : PartlyWritten dist files tree tree') :
    Changed Nowhere (tree.PlacesOf (files.map (rulePath dist))) tree tree' := by
  induction hs with
  | start => exact .refl _
  | @next file tree between tree' hmem _ h ih =>
    have hlast := changed_write h
    rw [ih.placesOf] at hlast
    refine ih.trans (hlast.mono (fun _ h => h) ?_)
    rintro place ⟨path, hpath, rfl⟩
    cases List.mem_singleton.1 hpath
    exact ⟨_, List.mem_map_of_mem hmem, rfl⟩

/-- The folder of the rules' files and the folders above it. -/
def folders (dist : String) : List String := rulesFolder dist :: Path.ancestors (rulesFolder dist)

/-- Until the index is written, only folders and the rules' files are changed. -/
theorem changed_until_index {result : Except FileError Unit} {start : FileTree}
    (hfolder : makeFolder dist tree = (result, start))
    (hs : PartlyWritten dist files start tree') :
    Changed (tree.PlacesOf (folders dist)) (tree.PlacesOf (files.map (rulePath dist))) tree
      tree' := by
  have hstart := changed_createDirectories (rulesFolder dist) tree
  have hfolder : (FileAccess.createDirectories (rulesFolder dist) : Action Unit) tree =
      (result, start) := hfolder
  rw [hfolder] at hstart
  have hfiles := hs.changed
  rw [hstart.placesOf] at hfiles
  exact (hstart.mono (fun _ h => h) nofun).trans (hfiles.mono nofun fun _ h => h)

/-- No file of a rule is at the place of the index: it is one folder further in. -/
theorem not_placesOf_index (hnames : ∀ file ∈ files, '/' ∉ file.file.toList) :
    ¬ tree.PlacesOf (files.map (rulePath dist)) (tree.locationOf (indexPath dist)) := by
  rintro ⟨path, hpath, heq⟩
  obtain ⟨file, hfile, rfl⟩ := List.mem_map.1 hpath
  exact locationOf_indexPath_ne (hnames file hfile) heq

/-- The index is as it was: the same file, or none. All else at its place is as it was, too, but
that a directory can be where nothing was if the way to the folder leads through the place. -/
structure IndexLeft (dist : String) (tree tree' : FileTree) : Prop where
  file_iff : ∀ contents,
    tree'.node? (tree.locationOf (indexPath dist)) = some (.file contents) ↔
      tree.node? (tree.locationOf (indexPath dist)) = some (.file contents)
  node_eq : ¬ tree.PlacesOf (folders dist) (tree.locationOf (indexPath dist)) →
    tree'.node? (tree.locationOf (indexPath dist)) = tree.node? (tree.locationOf (indexPath dist))
  directory_of_ne : tree'.node? (tree.locationOf (indexPath dist)) ≠
      tree.node? (tree.locationOf (indexPath dist)) →
    tree.node? (tree.locationOf (indexPath dist)) = none ∧
      tree'.node? (tree.locationOf (indexPath dist)) = some .directory

theorem IndexLeft.refl (dist : String) (tree : FileTree) : IndexLeft dist tree tree :=
  ⟨fun _ => Iff.rfl, fun _ => rfl, fun h => absurd rfl h⟩

theorem indexLeft (hnames : ∀ file ∈ files, '/' ∉ file.file.toList)
    (h : Changed (tree.PlacesOf (folders dist)) (tree.PlacesOf (files.map (rulePath dist))) tree
      tree') : IndexLeft dist tree tree' :=
  have hplace := not_placesOf_index hnames
  ⟨h.file_iff hplace, fun hfolder => h.node_eq hfolder hplace, h.directory_of_ne hplace⟩

/-! ## Runs on rules -/

/-- A file that cannot be written stops the run; what comes behind it does not matter. -/
theorem run_mapM_failed {front : List DeclarationFile} {file : DeclarationFile}
    {written : FileTree} {error : FileError} (hs : Writes dist front tree written)
    (h : written.write (rulePath dist file) file.source = .error error)
    (back : List DeclarationFile) :
    run ((front ++ file :: back).mapM (writeRule dist)) tree =
      (.error (.io (rulePath dist file) error), written) := by
  induction hs with
  | nil =>
    rw [List.nil_append, List.mapM_cons, run_bind, run_writeRule, h]
  | cons hfirst _ ih =>
    rw [List.cons_append, List.mapM_cons, run_bind, run_writeRule, hfirst]
    dsimp only
    rw [run_bind, ih h]

theorem run_write_folder {error : FileError} {start : FileTree}
    (hfolder : makeFolder dist tree = (.error error, start)) :
    run (bundle.write dist) tree = (.error (.io (rulesFolder dist) error), start) := by
  rw [run_write_eq, hfolder]

theorem run_write_file {start written : FileTree} {error : Error}
    (hfolder : makeFolder dist tree = (.ok (), start))
    (hfiles : run (bundle.files.mapM (writeRule dist)) start = (.error error, written)) :
    run (bundle.write dist) tree = (.error error, written) := by
  rw [run_write_eq, hfolder]
  dsimp only
  rw [run_bind, hfiles]

/-- A run that fails has changed folders and the rules' files only. -/
theorem WriteOutcome.changed_of_error {error : Error}
    (h : WriteOutcome bundle dist tree (.error error, tree')) :
    Changed (tree.PlacesOf (folders dist)) (tree.PlacesOf (bundle.files.map (rulePath dist))) tree
      tree' := by
  cases h with
  | folder hfolder => exact changed_until_index hfolder (.start _)
  | file hfolder hfiles =>
    cases hfiles with
    | failed hsplit hs =>
      exact changed_until_index hfolder (hs.partly (hsplit ▸ List.subset_append_left ..))
  | index hfolder hs => exact changed_until_index hfolder (hs.partly (List.Subset.refl _))

/-- A run that fails leaves the index. -/
theorem WriteOutcome.indexLeft {error : Error}
    (hnames : ∀ file ∈ bundle.files, '/' ∉ file.file.toList)
    (h : WriteOutcome bundle dist tree (.error error, tree')) : IndexLeft dist tree tree' :=
  Bundle.indexLeft hnames h.changed_of_error

/-- A run that succeeds has written the index, and changed folders, the files of the rules and the
index only. -/
theorem WriteOutcome.done_changed {placement : Placement}
    (h : WriteOutcome bundle dist tree (.ok placement, tree')) :
    tree'.read (indexPath dist) = .ok bundle.index ∧
      Changed (tree.PlacesOf (folders dist))
        (tree.PlacesOf (indexPath dist :: bundle.files.map (rulePath dist))) tree tree' := by
  cases h with
  | done hfolder hs hindex =>
    have hbefore := changed_until_index hfolder (hs.partly (List.Subset.refl _))
    have hlast := changed_write hindex
    rw [hbefore.placesOf] at hlast
    refine ⟨(write_ok hindex).2.2, (hbefore.mono (fun _ h => h) ?_).trans (hlast.mono nofun ?_)⟩
    · rintro place ⟨path, hpath, rfl⟩
      exact ⟨path, List.mem_cons_of_mem _ hpath, rfl⟩
    · rintro place ⟨path, hpath, rfl⟩
      exact ⟨path, List.mem_cons.2 (.inl (List.mem_singleton.1 hpath)), rfl⟩

/-- How a run on a set of rules ends. With a refused rule it ends with the error of such a rule, and
the tree is as it was. If the folder cannot be made or the file of a rule cannot be written, it ends
with that error; and the index is left then, as it is whenever some of the files were written in
some order, or the run has failed. If it succeeds, then the index was written, and apart from
folders only the files of the rules and the index are new. -/
theorem generate_outcome (declarer : Declarer) (options : Options) (rules : Rules)
    (tree : FileTree) :
    ((∃ entry ∈ rules, ∃ error, Refused declarer options.style entry.1 entry.2 error) →
      ∃ entry ∈ rules, ∃ error, Refused declarer options.style entry.1 entry.2 error ∧
        run (generate declarer options rules) tree = (.error error, tree)) ∧
    (∀ bundle, ofRules declarer options rules = .ok bundle →
      ∀ dist, options.distFolder = dist → ∀ result start, makeFolder dist tree = (result, start) →
      (∀ error, result = .error error →
        run (generate declarer options rules) tree =
          (.error (.io (rulesFolder dist) error), start)) ∧
      (∀ front file back written error, result = .ok () → bundle.files = front ++ file :: back →
        Writes dist front start written →
        written.write (rulePath dist file) file.source = .error error →
        run (generate declarer options rules) tree =
          (.error (.io (rulePath dist file) error), written)) ∧
      ∀ written, PartlyWritten dist bundle.files start written → IndexLeft dist tree written) ∧
    (∀ error tree', run (generate declarer options rules) tree = (.error error, tree') →
      IndexLeft options.distFolder tree tree') ∧
    ∀ placement tree', run (generate declarer options rules) tree = (.ok placement, tree') →
      ∃ bundle, ofRules declarer options rules = .ok bundle ∧
        tree'.read (indexPath options.distFolder) = .ok bundle.index ∧
        Changed (tree.PlacesOf (folders options.distFolder))
          (tree.PlacesOf (indexPath options.distFolder ::
            bundle.files.map (rulePath options.distFolder))) tree tree' := by
  refine ⟨?refused, ?stopped, ?failed, ?done⟩
  case refused =>
    rintro ⟨entry, hmem, error, hrefused⟩
    obtain ⟨culprit, hculprit, problem, hproblem, hmade⟩ := ofRules_refused hmem hrefused
    exact ⟨culprit, hculprit, problem, hproblem, run_generate_error hmade tree⟩
  case stopped =>
    rintro bundle hmade dist rfl result start hfolder
    have hrun := run_generate_ok hmade tree
    refine ⟨?_, ?_, fun written hs => ?_⟩
    · rintro error rfl
      exact hrun.trans (run_write_folder hfolder)
    · rintro front file back written error rfl hsplit hs hfile
      refine hrun.trans (run_write_file hfolder ?_)
      rw [hsplit]
      exact run_mapM_failed hs hfile back
    · exact indexLeft (slash_not_mem_file hmade) (changed_until_index hfolder hs)
  case failed =>
    intro error tree' hrun
    cases hmade : ofRules declarer options rules with
    | error problem =>
      rw [run_generate_error hmade] at hrun
      cases hrun
      exact .refl ..
    | ok bundle =>
      rw [run_generate_ok hmade] at hrun
      have houtcome := writeOutcome bundle options.distFolder tree
      rw [hrun] at houtcome
      exact houtcome.indexLeft (slash_not_mem_file hmade)
  case done =>
    intro placement tree' hrun
    cases hmade : ofRules declarer options rules with
    | error problem =>
      rw [run_generate_error hmade] at hrun
      cases hrun
    | ok bundle =>
      rw [run_generate_ok hmade] at hrun
      have houtcome := writeOutcome bundle options.distFolder tree
      rw [hrun] at houtcome
      exact ⟨bundle, rfl, houtcome.done_changed⟩

/-- A file stands where the folder should be. -/
def occupied : FileTree := { entries := [(["rules"], .file (.text ""))] }

/-- A file is there already, and stays. -/
theorem makeFolder_occupied : makeFolder "" occupied = (.error .occupied, occupied) := by
  have hpath : rulesFolder "" = "rules" := by decide +kernel
  have hfollow : occupied.follow "rules" = .ok (.file ["rules"] (.text "")) :=
    follow_eq_ok_iff.2 ⟨⟨by simp, by decide, by decide⟩, by decide +kernel⟩
  rw [makeFolder, hpath]
  exact createDirectories_of_file hfollow

/-- In the place of a rule's file there is a directory, and there is an index already. -/
def blocked : FileTree :=
  { entries := [(["index.d.ts"], .file (.text "old")), (["rules"], .directory),
      (["no-eval.d.ts", "rules"], .directory)] }

/-- `blocked` with the file of another rule. -/
def partlyWritten : FileTree :=
  blocked.put ["no-alert.d.ts", "rules"] (.file (.text "export type NoAlert = []"))

/-- The file of a rule without options. -/
def noAlert : DeclarationFile := ⟨"no-alert", "NoAlert", "no-alert", "export type NoAlert = []"⟩

/-- The file of another one. -/
def noEval : DeclarationFile := ⟨"no-eval", "NoEval", "no-eval", "export type NoEval = []"⟩

theorem makeFolder_blocked : makeFolder "" blocked = (.ok (), blocked) := by
  have hpath : rulesFolder "" = "rules" := by decide +kernel
  have hfollow : blocked.follow "rules" = .ok (.directory ["rules"]) :=
    follow_eq_ok_iff.2 ⟨⟨by simp, by decide, by decide⟩, by decide +kernel⟩
  rw [makeFolder, hpath]
  exact createDirectories_of_directory hfollow

theorem writes_noAlert : Writes "" [noAlert] blocked partlyWritten := by
  have hpath : rulePath "" noAlert = "rules/no-alert.d.ts" := by decide +kernel
  have hfollow : blocked.follow "rules/no-alert.d.ts" =
      .ok (.vacant ["no-alert.d.ts", "rules"]) :=
    follow_eq_ok_iff.2 ⟨⟨by simp, by decide, by decide⟩, by decide +kernel⟩
  have hend : ("rules/no-alert.d.ts".endsWith "/") = false := by decide +kernel
  refine .cons ?_ .nil
  rw [hpath, FileTree.write, hfollow]
  simp only [bind, Except.bind, hend, Bool.false_eq_true, if_false]
  rfl

theorem write_noEval :
    partlyWritten.write "rules/no-eval.d.ts" noEval.source = .error .isADirectory := by
  have hfollow : partlyWritten.follow "rules/no-eval.d.ts" =
      .ok (.directory ["no-eval.d.ts", "rules"]) :=
    follow_eq_ok_iff.2 ⟨⟨by simp, by decide, by decide⟩, by decide +kernel⟩
  rw [FileTree.write, hfollow]
  rfl

/-- A rule without a name, a folder that cannot be made, a rule's file that cannot be written beside
an index of an earlier run, and a run that succeeds. -/
theorem generate_outcome_optionless :
    run (generate .standard { distFolder := "" } (optionless [""])) emptyFolder =
        (.error (.invalidRuleName ""), emptyFolder) ∧
      run (generate .standard { distFolder := "" } (optionless ["no-eval"])) occupied =
        (.error (.io "rules" .occupied), occupied) ∧
      (run (generate .standard { distFolder := "" } (optionless ["no-alert", "no-eval"])) blocked =
          (.error (.io "rules/no-eval.d.ts" .isADirectory), partlyWritten) ∧
        blocked.node? ["index.d.ts"] = some (.file (.text "old")) ∧
        partlyWritten.node? ["index.d.ts"] = some (.file (.text "old"))) ∧
      ∃ placement tree',
        run (generate .standard { distFolder := "" } (optionless ["no-eval"])) emptyFolder =
          (.ok placement, tree') ∧
        ∃ bundle, ofRules .standard { distFolder := "" } (optionless ["no-eval"]) = .ok bundle ∧
          tree'.read (indexPath "") = .ok bundle.index := by
  have hfiles : (ofRules .standard {} (optionless ["no-eval"])).toOption.map Bundle.files =
      some [noEval] := by
    decide +kernel
  have hpath : rulePath "" noEval = "rules/no-eval.d.ts" := by decide +kernel
  have hfolder : rulesFolder "" = "rules" := by decide +kernel
  obtain ⟨bundle, hbundle, -, placement, tree', hrun⟩ := write_optionless hfiles (by
    refine List.forall_mem_singleton.2 ?_
    rw [hpath]
    exact canHold_emptyFolder ⟨by simp, by decide, by decide⟩ ["no-eval.d.ts", "rules"]
      (by decide +kernel))
  have hmade : ofRules .standard { distFolder := "" } (optionless ["no-eval"]) = .ok bundle :=
    hbundle
  refine ⟨?refused, ?unmade, ?unwritten, placement, tree', ?_⟩
  case refused =>
    obtain ⟨entry, hentry, error, hrefused, hrun⟩ :=
      (generate_outcome .standard { distFolder := "" } (optionless [""]) emptyFolder).1
        ⟨("", {}), List.mem_singleton_self _, _, .name rfl⟩
    cases List.mem_singleton.1 hentry
    cases hrefused with
    | name => exact hrun
    | source hname => exact absurd rfl hname
  case unmade =>
    obtain ⟨hstopped, -, -⟩ := (generate_outcome .standard { distFolder := "" }
      (optionless ["no-eval"]) occupied).2.1 bundle hmade "" rfl _ _ makeFolder_occupied
    rw [hstopped _ rfl, hfolder]
  case unwritten =>
    have hfiles : (ofRules .standard { distFolder := "" }
        (optionless ["no-alert", "no-eval"])).toOption.map Bundle.files =
        some [noAlert, noEval] := by
      decide +kernel
    cases hboth : ofRules .standard { distFolder := "" } (optionless ["no-alert", "no-eval"]) with
    | error error =>
      rw [hboth] at hfiles
      cases hfiles
    | ok both =>
      rw [hboth] at hfiles
      have hfiles : both.files = [noAlert, noEval] := Option.some.inj hfiles
      obtain ⟨-, hunwritten, hleft⟩ := (generate_outcome .standard { distFolder := "" }
        (optionless ["no-alert", "no-eval"]) blocked).2.1 both hboth "" rfl _ _ makeFolder_blocked
      have hstopped := hunwritten [noAlert] noEval [] _ _ rfl hfiles writes_noAlert
        (hpath.symm ▸ write_noEval)
      have hleft := hleft _ (writes_noAlert.partly (hfiles ▸ List.subset_append_left [noAlert] _))
      have hindex : blocked.locationOf (indexPath "") = ["index.d.ts"] := by decide +kernel
      have hfile := hleft.file_iff (.text "old")
      rw [hindex] at hfile
      exact ⟨hpath ▸ hstopped, rfl, hfile.2 rfl⟩
  have hdone := (run_generate_ok hmade emptyFolder).trans hrun
  obtain ⟨bundle, hmade, hindex, -⟩ := (generate_outcome .standard { distFolder := "" }
    (optionless ["no-eval"]) emptyFolder).2.2.2 placement tree' hdone
  exact ⟨hdone, bundle, hmade, hindex⟩

/-- A directory was made in the place of the index. -/
def crossed : FileTree := occupied.put ["index.d.ts"] .directory

/-- The way to the folder is made through the place of the index, and leads to a file. -/
theorem makeFolder_throughIndex :
    makeFolder "index.d.ts/.." occupied = (.error .occupied, crossed) := by
  have hpath : rulesFolder "index.d.ts/.." = "index.d.ts/../rules" := by decide +kernel
  have hancestors : Path.ancestors "index.d.ts/../rules" = ["index.d.ts/..", "index.d.ts", ""] := by
    decide +kernel
  have hfolder : IsFollowed "index.d.ts/../rules" := ⟨by simp, by decide, by decide⟩
  have habove : IsFollowed "index.d.ts/.." := ⟨by simp, by decide, by decide⟩
  have hindex : IsFollowed "index.d.ts" := ⟨by simp, by decide, by decide⟩
  -- Neither the folder nor the one above it can be made before there is a directory to go through.
  have hfolderMissing : occupied.follow "index.d.ts/../rules" = .error .notFound :=
    (follow_of_isFollowed hfolder).trans (by decide +kernel)
  have haboveMissing : occupied.follow "index.d.ts/.." = .error .notFound :=
    (follow_of_isFollowed habove).trans (by decide +kernel)
  have hvacant : occupied.follow "index.d.ts" = .ok (.vacant ["index.d.ts"]) :=
    (follow_of_isFollowed hindex).trans (by decide +kernel)
  -- With it the way goes on, and the folder turns out to be a file.
  have haboveThere : crossed.follow "index.d.ts/.." = .ok (.directory []) :=
    (follow_of_isFollowed habove).trans (by decide +kernel)
  have hfile : crossed.follow "index.d.ts/../rules" = .ok (.file ["rules"] (.text "")) :=
    (follow_of_isFollowed hfolder).trans (by decide +kernel)
  have hmade : occupied.ensured "index.d.ts" = (.ok (), crossed) := by
    rw [ensured, hvacant]
    rfl
  rw [makeFolder, hpath, FileAccess.createDirectories, hancestors,
    createFirst_cons _ _ _ hfolder.2.1, ensured, hfolderMissing]
  dsimp only
  rw [createFirst_cons _ _ _ habove.2.1, ensured, haboveMissing]
  dsimp only
  rw [createFirst_cons _ _ _ hindex.2.1, hmade]
  dsimp only
  rw [ensured, haboveThere]
  dsimp only
  rw [ensured, hfile]

/-- A run whose folder cannot be made leaves a directory where the index would be, and nothing was
there before. -/
theorem generate_outcome_throughIndex :
    run (generate .standard { distFolder := "index.d.ts/.." } (optionless ["no-eval"])) occupied =
        (.error (.io "index.d.ts/../rules" .occupied), crossed) ∧
      occupied.locationOf (indexPath "index.d.ts/..") = ["index.d.ts"] ∧
      occupied.node? ["index.d.ts"] = none ∧ crossed.node? ["index.d.ts"] = some .directory := by
  have hmade : (ofRules .standard { distFolder := "index.d.ts/.." }
      (optionless ["no-eval"])).toOption.isSome = true := by decide +kernel
  have hfolder : rulesFolder "index.d.ts/.." = "index.d.ts/../rules" := by decide +kernel
  refine ⟨?_, by decide +kernel, rfl, rfl⟩
  cases hbundle : ofRules .standard { distFolder := "index.d.ts/.." } (optionless ["no-eval"]) with
  | error error =>
    rw [hbundle] at hmade
    cases hmade
  | ok bundle =>
    rw [run_generate_ok hbundle, run_write_folder makeFolder_throughIndex, hfolder]

end LintTypes.Bundle
