import LintTypes.Bundle
import LintTypes.Proofs.ChangedPlaces
import LintTypes.Proofs.ConventionalNames
import LintTypes.Proofs.RuleText

/-!
# The files of a bundle

Each rule of a bundle has a file and a type, called by names that are made from its own. Nobody
looks whether these names are distinct. The file of a rule is written where that of another one may
be already, so that in the end it holds the source of one of the rules with that file. Which one it
is depends on the order in which the files are written, and that order is not settled: what is said
about a bundle that was written holds for every order.

Rules with conventional names do not get in each other's way: they have files and types of their
own, and after the bundle was written each file holds the source of its rule.
-/

namespace LintTypes

/-! ## Actions on a tree -/

namespace FileTree

variable {α β : Type}

/-- The outcome of an action on a tree, and the tree that it leaves. -/
def run (action : ExceptT Error (StateM FileTree) α) (tree : FileTree) :
    Except Error α × FileTree :=
  Id.run (StateT.run (ExceptT.run action) tree)

theorem run_pure_ok_iff {a b : α} {tree tree' : FileTree} :
    run (pure a) tree = (.ok b, tree') ↔ a = b ∧ tree = tree' := by
  show (Except.ok a, tree) = (.ok b, tree') ↔ _
  rw [Prod.mk.injEq, Except.ok.injEq]

theorem run_bind (action : ExceptT Error (StateM FileTree) α)
    (next : α → ExceptT Error (StateM FileTree) β) (tree : FileTree) :
    run (action >>= next) tree =
      match run action tree with
      | (.ok a, between) => run (next a) between
      | (.error error, between) => (.error error, between) := by
  unfold run
  simp only [ExceptT.run_bind, StateT.run_bind]
  generalize StateT.run (ExceptT.run action) tree = outcome
  obtain ⟨error | a, between⟩ := outcome <;> rfl

/-- An action that may fail is gone on with if it did not. -/
theorem bindExcept_ok_iff {ε : Type} {action : ExceptT ε (StateM FileTree) α}
    {next : α → ExceptT ε (StateM FileTree) β} {b : β} {tree tree' : FileTree} :
    Id.run (StateT.run (ExceptT.run (action >>= next)) tree) = (.ok b, tree') ↔
      ∃ a between, Id.run (StateT.run (ExceptT.run action) tree) = (.ok a, between) ∧
        Id.run (StateT.run (ExceptT.run (next a)) between) = (.ok b, tree') := by
  simp only [ExceptT.run_bind, StateT.run_bind]
  generalize StateT.run (ExceptT.run action) tree = outcome
  obtain ⟨error | a, between⟩ := outcome
  · constructor
    · rintro ⟨⟩
    · rintro ⟨a, between, ⟨⟩, -⟩
  · constructor
    · exact fun h => ⟨a, between, rfl, h⟩
    · rintro ⟨_, _, ⟨⟩, h⟩
      exact h

theorem run_bind_ok_iff {action : ExceptT Error (StateM FileTree) α}
    {next : α → ExceptT Error (StateM FileTree) β} {b : β} {tree tree' : FileTree} :
    run (action >>= next) tree = (.ok b, tree') ↔
      ∃ a between, run action tree = (.ok a, between) ∧ run (next a) between = (.ok b, tree') :=
  bindExcept_ok_iff

theorem run_onPath (path : String) (action : StateM FileTree (Except FileError α))
    (tree : FileTree) :
    run (Bundle.onPath path action) tree =
      ((action tree).1.mapError (.io path), (action tree).2) := rfl

/-- Whatever an error is turned into, an action that succeeds does so all the same. -/
theorem mapError_ok_iff {ε ε' : Type} {f : ε → ε'} {action : StateM FileTree (Except ε α)} {a : α}
    {tree tree' : FileTree} :
    Id.run (StateT.run (ExceptT.run (ExceptT.mk do return (← action).mapError f)) tree) =
      (.ok a, tree') ↔ action tree = (.ok a, tree') := by
  have hrun : Id.run (StateT.run (ExceptT.run (ExceptT.mk do return (← action).mapError f)) tree) =
      ((action tree).1.mapError f, (action tree).2) := rfl
  rw [hrun]
  obtain ⟨error | b, between⟩ := action tree
  · exact ⟨nofun, nofun⟩
  · constructor
    · rintro ⟨⟩
      rfl
    · rintro ⟨⟩
      rfl

theorem run_onPath_ok_iff {path : String} {action : StateM FileTree (Except FileError α)} {a : α}
    {tree tree' : FileTree} :
    run (Bundle.onPath path action) tree = (.ok a, tree') ↔ action tree = (.ok a, tree') :=
  mapError_ok_iff

theorem write_action_ok_iff {path text : String} {result : Unit} {tree tree' : FileTree} :
    (FileAccess.write path text : StateM FileTree (Except FileError Unit)) tree =
      (.ok result, tree') ↔ tree.write path text = .ok tree' := by
  have hcommit : (FileAccess.write path text : StateM FileTree (Except FileError Unit)) tree =
      commit (·.write path text) tree := rfl
  rw [hcommit, commit]
  cases tree.write path text with
  | ok changed =>
    constructor
    · rintro ⟨⟩
      rfl
    · rintro ⟨⟩
      rfl
  | error error =>
    constructor
    · rintro ⟨⟩
    · rintro ⟨⟩

end FileTree

namespace Bundle

open FileTree (run Action IsEntryName)

variable {dist : String} {tree tree' : FileTree} {files : List DeclarationFile}

/-! ## Places of files -/

theorem isEntryName_file {file : DeclarationFile} (h : '/' ∉ file.file.toList) :
    IsEntryName (file.file ++ ".d.ts") := by
  have hlength : 5 ≤ (file.file ++ ".d.ts").toList.length := by simp
  refine ⟨by simpa using h, ?_, ?_, ?_⟩ <;>
  · intro heq
    rw [heq] at hlength
    simp at hlength

theorem locationOf_rulePath (tree : FileTree) (dist : String) {file : DeclarationFile}
    (h : '/' ∉ file.file.toList) :
    tree.locationOf (rulePath dist file) =
      [file.file ++ ".d.ts", "rules"] ++ tree.locationOf dist := by
  have hrules : IsEntryName "rules" := ⟨by decide, by decide, by decide, by decide⟩
  rw [rulePath, FileTree.locationOf_join _ _ (isEntryName_file h), rulesFolder,
    FileTree.locationOf_join _ _ hrules]
  rfl

/-- Files with different names have different places. -/
theorem locationOf_rulePath_ne {file other : DeclarationFile} (h : '/' ∉ file.file.toList)
    (h' : '/' ∉ other.file.toList) (hne : file.file ≠ other.file) :
    tree.locationOf (rulePath dist file) ≠ tree.locationOf (rulePath dist other) := by
  rw [locationOf_rulePath tree dist h, locationOf_rulePath tree dist h']
  intro heq
  have hname : file.file ++ ".d.ts" = other.file ++ ".d.ts" := List.head_eq_of_cons_eq heq
  refine hne (String.toList_inj.1 ?_)
  have hlist := congrArg String.toList hname
  simpa using hlist

theorem isEntryName_index : IsEntryName "index.d.ts" :=
  ⟨by decide, by decide, by decide, by decide⟩

theorem locationOf_indexPath_ne {file : DeclarationFile} (h : '/' ∉ file.file.toList) :
    tree.locationOf (indexPath dist) ≠ tree.locationOf (rulePath dist file) := by
  rw [locationOf_rulePath tree dist h, indexPath, FileTree.locationOf_join _ _ isEntryName_index]
  intro heq
  have hlength := congrArg List.length heq
  simp at hlength

/-! ## Writing the files -/

/-- Makes the folder of the rules' files. -/
abbrev makeFolder (dist : String) : Action Unit := FileAccess.createDirectories (rulesFolder dist)

/-- Files are written one after the other. -/
inductive Writes (dist : String) : List DeclarationFile → FileTree → FileTree → Prop where
  | nil {tree : FileTree} : Writes dist [] tree tree
  | cons {file : DeclarationFile} {files : List DeclarationFile} {tree between tree' : FileTree}
      (h : tree.write (rulePath dist file) file.source = .ok between)
      (hs : Writes dist files between tree') : Writes dist (file :: files) tree tree'

theorem run_mapM_ok_iff :
    (∃ paths, run (files.mapM (writeRule dist)) tree = (.ok paths, tree')) ↔
      Writes dist files tree tree' := by
  induction files generalizing tree with
  | nil =>
    simp only [List.mapM_nil, FileTree.run_pure_ok_iff]
    constructor
    · rintro ⟨_, rfl, rfl⟩
      exact .nil
    · rintro ⟨⟩
      exact ⟨[], rfl, rfl⟩
  | cons file files ih =>
    simp only [List.mapM_cons, writeRule, FileTree.run_bind_ok_iff, FileTree.run_onPath_ok_iff,
      FileTree.write_action_ok_iff, FileTree.run_pure_ok_iff]
    constructor
    · rintro ⟨_, _, between, ⟨_, _, hwrite, rfl, rfl⟩, others, _, hothers, rfl, rfl⟩
      exact .cons hwrite (ih.1 ⟨others, hothers⟩)
    · rintro (_ | ⟨hwrite, hs⟩)
      obtain ⟨others, hothers⟩ := ih.2 hs
      exact ⟨_, _, _, ⟨(), _, hwrite, rfl, rfl⟩, others, _, hothers, rfl, rfl⟩

/-- A bundle is written by making the folder, then writing the files, and then the index. -/
theorem run_write_ok_iff {bundle : Bundle} :
    (∃ placement, run (bundle.write dist) tree = (.ok placement, tree')) ↔
      ∃ start written,
        makeFolder dist tree = (.ok (), start) ∧
        Writes dist bundle.files start written ∧
        written.write (indexPath dist) bundle.index = .ok tree' := by
  simp only [write, FileTree.run_bind_ok_iff, FileTree.run_onPath_ok_iff,
    FileTree.write_action_ok_iff, FileTree.run_pure_ok_iff, ← run_mapM_ok_iff]
  constructor
  · rintro ⟨_, _, start, hfolder, paths, written, hfiles, _, _, hindex, rfl, rfl⟩
    exact ⟨start, written, hfolder, ⟨paths, hfiles⟩, hindex⟩
  · rintro ⟨start, written, hfolder, ⟨paths, hfiles⟩, hindex⟩
    exact ⟨_, (), start, hfolder, paths, written, hfiles, (), _, hindex, rfl, rfl⟩

/-- The file holds the source of one of the files that are called like it. -/
def HoldsSource (dist : String) (files : List DeclarationFile) (tree : FileTree)
    (file : DeclarationFile) : Prop :=
  ∃ other ∈ files, other.file = file.file ∧ tree.read (rulePath dist file) = .ok other.source

/-- Writing one of the files leaves the source of one of them wherever such a source was. -/
theorem HoldsSource.write {first file : DeclarationFile} {all : List DeclarationFile}
    (h : HoldsSource dist all tree file)
    (hfirst : '/' ∉ first.file.toList) (hfile : '/' ∉ file.file.toList) (hmem : first ∈ all)
    (hwrite : tree.write (rulePath dist first) first.source = .ok tree') :
    HoldsSource dist all tree' file := by
  -- A file of the same name is at the same path and replaces the text; any other is elsewhere.
  by_cases hsame : first.file = file.file
  · have hpath : rulePath dist first = rulePath dist file := by rw [rulePath, rulePath, hsame]
    exact ⟨first, hmem, hsame, hpath ▸ (FileTree.write_ok hwrite).2.2⟩
  · obtain ⟨other, hother, hname, hread⟩ := h
    exact ⟨other, hother, hname,
      FileTree.read_write_of_ne hwrite hread (locationOf_rulePath_ne hfirst hfile hsame)⟩

theorem Writes.holdsSource_of_holdsSource (hw : Writes dist files tree tree')
    {all : List DeclarationFile} (hnames : ∀ file ∈ all, '/' ∉ file.file.toList)
    (hall : files ⊆ all) {file : DeclarationFile} (hfile : file ∈ all)
    (h : HoldsSource dist all tree file) : HoldsSource dist all tree' file := by
  induction hw with
  | nil => exact h
  | cons hwrite _ ih =>
    obtain ⟨hfirst, hothers⟩ := List.cons_subset.1 hall
    exact ih hothers (h.write (hnames _ hfirst) (hnames _ hfile) hfirst hwrite)

/-- In whichever order files were written, each of them holds the source of one of its name. -/
theorem Writes.holdsSource (hw : Writes dist files tree tree') {all : List DeclarationFile}
    (hnames : ∀ file ∈ all, '/' ∉ file.file.toList) (hall : files ⊆ all) :
    ∀ file ∈ files, HoldsSource dist all tree' file := by
  induction hw with
  | nil => exact List.forall_mem_nil _
  | @cons first files _ _ _ hwrite hs ih =>
    obtain ⟨hfirst, hothers⟩ := List.cons_subset.1 hall
    refine List.forall_mem_cons.2 ⟨?_, ih hothers⟩
    have hown : HoldsSource dist all _ first := ⟨first, hfirst, rfl, (FileTree.write_ok hwrite).2.2⟩
    exact hs.holdsSource_of_holdsSource hnames hothers hfirst hown

/-- The bundle was written: the folder was made, then the files were written in some order, and the
index last. -/
inductive Written (bundle : Bundle) (dist : String) (tree tree' : FileTree) : Prop where
  | intro {start written : FileTree} {order : List DeclarationFile}
      (hfolder : makeFolder dist tree = (.ok (), start))
      (horder : order.Perm bundle.files) (hs : Writes dist order start written)
      (hindex : written.write (indexPath dist) bundle.index = .ok tree')

/-- A run that succeeds has written the bundle. -/
theorem written_of_run {bundle : Bundle} {placement : Placement}
    (hrun : run (bundle.write dist) tree = (.ok placement, tree')) :
    bundle.Written dist tree tree' := by
  obtain ⟨start, written, hfolder, hs, hindex⟩ := run_write_ok_iff.1 ⟨placement, hrun⟩
  exact ⟨hfolder, .refl _, hs, hindex⟩

/-- The index is written beside the files and touches none of them. -/
theorem Written.holdsSource {bundle : Bundle}
    (hnames : ∀ file ∈ bundle.files, '/' ∉ file.file.toList)
    (h : bundle.Written dist tree tree') :
    ∀ file ∈ bundle.files, HoldsSource dist bundle.files tree' file := by
  obtain ⟨-, horder, hs, hindex⟩ := h
  intro file hfile
  obtain ⟨other, hother, hname, hread⟩ :=
    hs.holdsSource hnames horder.subset file (horder.mem_iff.2 hfile)
  exact ⟨other, hother, hname,
    FileTree.read_write_of_ne hindex hread (locationOf_indexPath_ne (hnames file hfile))⟩

/-- If no two files have the same name, each holds its own source. -/
theorem Written.read_of_nodup {bundle : Bundle}
    (hnames : ∀ file ∈ bundle.files, '/' ∉ file.file.toList)
    (hnodup : (bundle.files.map DeclarationFile.file).Nodup)
    (h : bundle.Written dist tree tree') :
    ∀ file ∈ bundle.files, tree'.read (rulePath dist file) = .ok file.source := by
  intro file hfile
  obtain ⟨other, hother, hname, hread⟩ := h.holdsSource hnames file hfile
  rw [hread, List.inj_on_of_nodup_map hnodup hother hfile hname]

/-- Files are written if each of them can be. -/
theorem exists_writes (hnames : ∀ file ∈ files, '/' ∉ file.file.toList)
    (hfiles : ∀ file ∈ files, tree.CanHold (rulePath dist file)) :
    ∃ tree', Writes dist files tree tree' ∧
      ∀ path, tree.CanHold path → tree'.CanHold path := by
  induction files generalizing tree with
  | nil => exact ⟨tree, .nil, fun _ h => h⟩
  | cons file files ih =>
    obtain ⟨hname, hnames⟩ := List.forall_mem_cons.1 hnames
    obtain ⟨hfile, hfiles⟩ := List.forall_mem_cons.1 hfiles
    have hend := FileTree.endsWith_join (rulesFolder dist) (isEntryName_file hname)
    obtain ⟨between, hwrite, hkept⟩ := hfile.write hend file.source
    obtain ⟨tree', hwrites, hkept'⟩ := ih hnames fun file hmem => hkept _ (hfiles file hmem)
    exact ⟨tree', .cons hwrite hwrites, fun path hpath => hkept' path (hkept path hpath)⟩

/-- A bundle is written if its folder can be made and then can hold all its files. -/
theorem run_write_succeeds {bundle : Bundle} {start : FileTree}
    (hnames : ∀ file ∈ bundle.files, '/' ∉ file.file.toList)
    (hfolder : makeFolder dist tree = (.ok (), start))
    (hfiles : ∀ file ∈ bundle.files, start.CanHold (rulePath dist file))
    (hindex : start.CanHold (indexPath dist)) :
    ∃ placement tree', run (bundle.write dist) tree = (.ok placement, tree') := by
  obtain ⟨written, hwrites, hkept⟩ := exists_writes hnames hfiles
  obtain ⟨tree', hwrite, -⟩ :=
    (hkept _ hindex).write (FileTree.endsWith_join dist isEntryName_index) bundle.index
  obtain ⟨placement, hrun⟩ := run_write_ok_iff.2 ⟨start, written, hfolder, hwrites, hwrite⟩
  exact ⟨placement, tree', hrun⟩

/-! ## Files of rules -/

/-- The file is that of a rule of the name. -/
structure IsFileOf (declarer : Declarer) (style : Style) (name : String) (rule : Rule)
    (file : DeclarationFile) : Prop where
  /-- It says which rule it belongs to. -/
  rule_eq : file.rule = name
  /-- The type is called after the rule, -/
  identifier_eq : file.identifier = Names.typeIdentifier name
  /-- and so is the file. -/
  file_eq : file.file = Names.fileName name
  /-- The source is that of the rule. -/
  source_eq : rule.source declarer style (Names.typeIdentifier name) = .ok file.source

variable {declarer : Declarer} {options : Options} {rules : Rules} {bundle : Bundle}

theorem isFileOf_ofRule {style : Style} {name : String} {rule : Rule} {file : DeclarationFile}
    (h : DeclarationFile.ofRule declarer style name rule = .ok file) :
    IsFileOf declarer style name rule file := by
  unfold DeclarationFile.ofRule at h
  cases hname : Rule.checkName name with
  | error error =>
    rw [hname] at h
    cases h
  | ok _ =>
    rw [hname] at h
    cases hsource : rule.source declarer style (Names.typeIdentifier name) with
    | error cause =>
      simp only [bind, Except.bind, hsource] at h
      cases h
    | ok source =>
      simp only [bind, Except.bind, hsource] at h
      cases h
      exact ⟨rfl, rfl, rfl, hsource⟩

theorem files_ofRules (h : ofRules declarer options rules = .ok bundle) :
    List.Forall₂ (fun entry file => IsFileOf declarer options.style entry.1 entry.2 file) rules
      bundle.files := by
  unfold ofRules at h
  generalize hmade : rules.mapM (m := Except Error) _ = made at h
  cases made with
  | error error => cases h
  | ok files =>
    cases h
    exact (Rule.mapM_ok_iff.1 hmade).imp fun _ _ => isFileOf_ofRule

/-- The names of rules and those of their files go together. -/
theorem map_files_eq {made : DeclarationFile → String} {ofName : String → String}
    (hmade : ∀ {name rule file}, IsFileOf declarer options.style name rule file →
      made file = ofName name)
    (h : ofRules declarer options rules = .ok bundle) :
    bundle.files.map made = (rules.map Prod.fst).map ofName := by
  rw [List.map_map, ← List.forall₂_eq_eq_eq, List.forall₂_map_left_iff, List.forall₂_map_right_iff]
  exact (files_ofRules h).flip.imp fun _ _ hfile => hmade hfile

/-- The names of files are single names. -/
theorem slash_not_mem_file (h : ofRules declarer options rules = .ok bundle) :
    ∀ file ∈ bundle.files, '/' ∉ file.file.toList := by
  intro file hfile
  obtain ⟨entry, -, hentry⟩ := (Schema.forall₂_exists (files_ofRules h)).2 file hfile
  rw [hentry.file_eq]
  exact Names.slash_not_mem_fileName entry.1

/-- What becomes of the rules of a bundle. Each one has its file in the bundle, and after the bundle
was written, in whichever order, the file holds the source of a rule whose file has the same name.
Rules with different conventional names have different files and different types, none of them
called like the type of the index; so each file holds the source of its own rule. -/
theorem ofRules_write (h : ofRules declarer options rules = .ok bundle) :
    List.Forall₂ (fun entry file => IsFileOf declarer options.style entry.1 entry.2 file) rules
      bundle.files ∧
    (∀ dist placement tree tree', run (bundle.write dist) tree = (.ok placement, tree') →
      bundle.Written dist tree tree') ∧
    (∀ dist tree tree', bundle.Written dist tree tree' →
      ∀ file ∈ bundle.files, ∃ other ∈ bundle.files, other.file = file.file ∧
        tree'.read (rulePath dist file) = .ok other.source) ∧
    ((rules.map Prod.fst).Nodup →
      (∀ name ∈ rules.map Prod.fst, Names.IsConventional name ∧ name ≠ "rule-options") →
      (bundle.files.map DeclarationFile.file).Nodup ∧
      (bundle.files.map DeclarationFile.identifier).Nodup ∧
      "RuleOptions" ∉ bundle.files.map DeclarationFile.identifier ∧
      ∀ dist tree tree', bundle.Written dist tree tree' →
        ∀ file ∈ bundle.files, tree'.read (rulePath dist file) = .ok file.source) := by
  have hfiles := map_files_eq (fun hfile => hfile.file_eq) h
  have hidentifiers := map_files_eq (fun hfile => hfile.identifier_eq) h
  refine ⟨files_ofRules h, fun _ _ _ _ => written_of_run,
    fun _ _ _ hwritten => hwritten.holdsSource (slash_not_mem_file h), fun hnodup hnames => ?_⟩
  have hnodupFiles : (bundle.files.map DeclarationFile.file).Nodup := by
    rw [hfiles]
    exact hnodup.map_on fun name hname other hother heq =>
      Names.fileName_inj (hnames name hname).1 (hnames other hother).1 heq
  refine ⟨hnodupFiles, ?identifiers, ?index,
    fun _ _ _ hwritten => hwritten.read_of_nodup (slash_not_mem_file h) hnodupFiles⟩
  case identifiers =>
    rw [hidentifiers]
    exact hnodup.map_on fun name hname other hother heq =>
      Names.typeIdentifier_inj (hnames name hname).1 (hnames other hother).1 heq
  case index =>
    rw [hidentifiers]
    intro hmem
    obtain ⟨name, hname, heq⟩ := List.mem_map.1 hmem
    obtain ⟨hconventional, hne⟩ := hnames name hname
    exact hne ((Names.typeIdentifier_eq_ruleOptions hconventional).1 heq)

/-! ## Two rules without options -/

/-- Rules of the given names that have no options. -/
def optionless (names : List String) : Rules := names.map fun name => (name, {})

/-- A tree with the folder of the rules' files, and nothing else. -/
def emptyFolder : FileTree := { entries := [(["rules"], .directory)] }

theorem makeFolder_emptyFolder : makeFolder "" emptyFolder = (.ok (), emptyFolder) := by
  have hpath : rulesFolder "" = "rules" := by decide +kernel
  have hfollow : emptyFolder.follow "rules" = .ok (.directory ["rules"]) :=
    FileTree.follow_eq_ok_iff.2 ⟨⟨by simp, by decide, by decide⟩, by decide +kernel⟩
  rw [makeFolder, hpath]
  exact FileTree.createDirectories_of_directory hfollow

theorem canHold_emptyFolder {path : String} (hp : FileTree.IsFollowed path) (location : Location)
    (hw : emptyFolder.walk (emptyFolder.startOf path) (FileTree.pathPieces path) =
      .ok (.vacant location)) : emptyFolder.CanHold path :=
  FileTree.canHold_of_walk hp location hw

/-- The bundle of rules without options is written to the empty folder if that can hold its
files. -/
theorem write_optionless {names : List String} {files : List DeclarationFile}
    (hfiles : (ofRules .standard {} (optionless names)).toOption.map Bundle.files = some files)
    (hpaths : ∀ file ∈ files, emptyFolder.CanHold (rulePath "" file)) :
    ∃ bundle, ofRules .standard {} (optionless names) = .ok bundle ∧ bundle.files = files ∧
      ∃ placement tree', run (bundle.write "") emptyFolder = (.ok placement, tree') := by
  cases hbundle : ofRules .standard {} (optionless names) with
  | error error =>
    rw [hbundle] at hfiles
    cases hfiles
  | ok bundle =>
    rw [hbundle] at hfiles
    cases hfiles
    have hpath : indexPath "" = "index.d.ts" := by decide +kernel
    have hindex : emptyFolder.CanHold (indexPath "") := by
      rw [hpath]
      exact canHold_emptyFolder ⟨by simp, by decide, by decide⟩ ["index.d.ts"] (by decide +kernel)
    exact ⟨bundle, rfl, rfl, run_write_succeeds (slash_not_mem_file hbundle)
      makeFolder_emptyFolder hpaths hindex⟩

/-- Two rules with conventional names have their files and keep them. -/
theorem ofRules_write_conventional :
    ∃ bundle, ofRules .standard {} (optionless ["no-eval", "css/no-eval"]) = .ok bundle ∧
      (bundle.files.map DeclarationFile.file).Nodup ∧
      ∃ placement tree', run (bundle.write "") emptyFolder = (.ok placement, tree') ∧
        ∀ file ∈ bundle.files, tree'.read (rulePath "" file) = .ok file.source := by
  have hfiles : (ofRules .standard {} (optionless ["no-eval", "css/no-eval"])).toOption.map
      Bundle.files = some [⟨"no-eval", "NoEval", "no-eval", "export type NoEval = []"⟩,
        ⟨"css/no-eval", "Css_NoEval", "css_no-eval", "export type Css_NoEval = []"⟩] := by
    decide +kernel
  have hfirst : rulePath "" ⟨"no-eval", "NoEval", "no-eval", "export type NoEval = []"⟩ =
      "rules/no-eval.d.ts" := by decide +kernel
  have hsecond : rulePath "" ⟨"css/no-eval", "Css_NoEval", "css_no-eval",
      "export type Css_NoEval = []"⟩ = "rules/css_no-eval.d.ts" := by decide +kernel
  obtain ⟨bundle, hbundle, -, placement, tree', hrun⟩ := write_optionless hfiles (by
    refine List.forall_mem_cons.2 ⟨?_, List.forall_mem_cons.2 ⟨?_, List.forall_mem_nil _⟩⟩
    · rw [hfirst]
      exact canHold_emptyFolder ⟨by simp, by decide, by decide⟩ ["no-eval.d.ts", "rules"]
        (by decide +kernel)
    · rw [hsecond]
      exact canHold_emptyFolder ⟨by simp, by decide, by decide⟩ ["css_no-eval.d.ts", "rules"]
        (by decide +kernel))
  have hnoEval : Names.IsConventional "no-eval" :=
    ⟨'n', "o".toList ++ '-' :: 'e' :: ("val".toList ++ []), rfl, by decide,
      .append (by decide) (.hyphen (by decide) (.append (by decide) .nil))⟩
  have hcss : Names.IsConventional "css/no-eval" :=
    ⟨'c', "ss".toList ++ '/' :: ("no".toList ++ '-' :: 'e' :: ("val".toList ++ [])), rfl, by decide,
      .append (by decide) (.slash (by decide)
        (.append (by decide) (.hyphen (by decide) (.append (by decide) .nil))))⟩
  have hnames : ∀ name ∈ (optionless ["no-eval", "css/no-eval"]).map Prod.fst,
      Names.IsConventional name ∧ name ≠ "rule-options" :=
    List.forall_mem_cons.2 ⟨⟨hnoEval, by decide⟩, List.forall_mem_singleton.2 ⟨hcss, by decide⟩⟩
  obtain ⟨-, hwritten, -, hconventional⟩ := ofRules_write hbundle
  obtain ⟨hnodup, -, -, hown⟩ := hconventional (by decide) hnames
  exact ⟨bundle, hbundle, hnodup, placement, tree', hrun, hown _ _ _ (hwritten _ _ _ _ hrun)⟩

/-- Two rules whose files have the same name: in whichever order they are written, one of them is
lost. -/
theorem ofRules_write_clash :
    ((optionless ["a/b", "a_b"]).map Prod.fst).Nodup ∧
      (∀ name ∈ (optionless ["a/b", "a_b"]).map Prod.fst, name ≠ "") ∧
      ∃ bundle, ofRules .standard {} (optionless ["a/b", "a_b"]) = .ok bundle ∧
        ¬(bundle.files.map DeclarationFile.file).Nodup ∧
        (∃ placement tree', run (bundle.write "") emptyFolder = (.ok placement, tree') ∧
          bundle.Written "" emptyFolder tree') ∧
        ∀ tree', bundle.Written "" emptyFolder tree' →
          ∃ file ∈ bundle.files, tree'.read (rulePath "" file) ≠ .ok file.source := by
  have hfiles : (ofRules .standard {} (optionless ["a/b", "a_b"])).toOption.map Bundle.files =
      some [⟨"a/b", "A_B", "a_b", "export type A_B = []"⟩,
        ⟨"a_b", "A_b", "a_b", "export type A_b = []"⟩] := by
    decide +kernel
  have hfirst : rulePath "" ⟨"a/b", "A_B", "a_b", "export type A_B = []"⟩ = "rules/a_b.d.ts" := by
    decide +kernel
  have hother : rulePath "" ⟨"a_b", "A_b", "a_b", "export type A_b = []"⟩ = "rules/a_b.d.ts" := by
    decide +kernel
  have hpath : emptyFolder.CanHold "rules/a_b.d.ts" :=
    canHold_emptyFolder ⟨by simp, by decide, by decide⟩ ["a_b.d.ts", "rules"] (by decide +kernel)
  obtain ⟨bundle, hbundle, heq, placement, tree', hrun⟩ := write_optionless hfiles
    (List.forall_mem_cons.2 ⟨hfirst ▸ hpath, List.forall_mem_singleton.2 (hother ▸ hpath)⟩)
  refine ⟨by decide, by decide, bundle, hbundle, ?_,
    ⟨placement, tree', hrun, written_of_run hrun⟩, fun tree' _ => ?_⟩
  · rw [heq]
    decide
  -- Both sources would have to be what is read from one path.
  · rw [heq]
    by_contra hkept
    push Not at hkept
    obtain ⟨hreadFirst, hreadOther⟩ := List.forall_mem_cons.1 hkept
    have hreadOther := List.forall_mem_singleton.1 hreadOther
    rw [hfirst] at hreadFirst
    rw [hother, hreadFirst] at hreadOther
    exact absurd (Except.ok.inj hreadOther) (by decide)

end Bundle

end LintTypes
