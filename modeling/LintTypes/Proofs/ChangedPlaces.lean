import LintTypes.Proofs.FileTrees

/-!
# What actions change

An action on a tree of files changes what there is at a few places: making directories puts them
where nothing was, and writing a file puts a text where no directory was. `Changed` bounds the
change by the places of both kinds; since a directory stays a directory and a file stays a file,
changes one after the other are a change of the same sort. Where a path leads does not depend on
what was changed.
-/

namespace LintTypes.FileTree

/-- What there is at a place stays, or is a new directory at one of the places `folders`, or is a
text at one of the places `files`. -/
inductive NodeChange (folders files : Location → Prop) (place : Location) :
    Option FileNode → Option FileNode → Prop where
  | same (node : Option FileNode) : NodeChange folders files place node node
  | folder (h : folders place) : NodeChange folders files place none (some .directory)
  | file (h : files place) {node : Option FileNode} (hn : node ≠ some .directory) (text : String) :
      NodeChange folders files place node (some (.file (.text text)))

/-- Nothing but directories at the places `folders` and texts at the places `files` is new. -/
structure Changed (folders files : Location → Prop) (tree tree' : FileTree) : Prop where
  workingDirectory : tree'.workingDirectory = tree.workingDirectory
  node : ∀ place, NodeChange folders files place (tree.node? place) (tree'.node? place)

/-- The places of the paths. -/
def PlacesOf (tree : FileTree) (paths : List String) (place : Location) : Prop :=
  ∃ path ∈ paths, place = tree.locationOf path

/-- No place at all. -/
def Nowhere (_ : Location) : Prop := False

variable {folders folders' files files' : Location → Prop} {tree between tree' : FileTree}
  {place location : Location} {path text : String}

/-- Changes one after the other are one change: a directory stays one, and so does a text. -/
theorem NodeChange.trans {node node' node'' : Option FileNode}
    (h : NodeChange folders files place node node')
    (h' : NodeChange folders files place node' node'') :
    NodeChange folders files place node node'' := by
  cases h with
  | same => exact h'
  | folder hfolder =>
    cases h' with
    | same => exact .folder hfolder
    | file hfile hn => exact absurd rfl hn
  | file hfile hn text =>
    cases h' with
    | same => exact .file hfile hn text
    | file hfile' hn' text' => exact .file hfile hn text'

theorem Changed.refl (tree : FileTree) : Changed folders files tree tree :=
  ⟨rfl, fun _ => .same _⟩

theorem Changed.trans (h : Changed folders files tree between)
    (h' : Changed folders files between tree') : Changed folders files tree tree' :=
  ⟨h'.workingDirectory.trans h.workingDirectory, fun place => (h.node place).trans (h'.node place)⟩

theorem NodeChange.mono {node node' : Option FileNode} (hfolders : folders place → folders' place)
    (hfiles : files place → files' place) (h : NodeChange folders files place node node') :
    NodeChange folders' files' place node node' := by
  cases h with
  | same => exact .same _
  | folder hfolder => exact .folder (hfolders hfolder)
  | file hfile hn text => exact .file (hfiles hfile) hn text

/-- More places may be allowed. -/
theorem Changed.mono (h : Changed folders files tree tree') (hfolders : ∀ place, folders place →
    folders' place) (hfiles : ∀ place, files place → files' place) :
    Changed folders' files' tree tree' :=
  ⟨h.workingDirectory, fun place => (h.node place).mono (hfolders place) (hfiles place)⟩

/-- Where a path leads is not changed. -/
theorem Changed.locationOf (h : Changed folders files tree tree') (path : String) :
    tree'.locationOf path = tree.locationOf path := by
  have hstart : tree'.startOf path = tree.startOf path := by
    unfold startOf
    rw [h.workingDirectory]
  unfold FileTree.locationOf
  rw [hstart]

theorem Changed.placesOf (h : Changed folders files tree tree') (paths : List String) :
    tree'.PlacesOf paths = tree.PlacesOf paths := by
  unfold PlacesOf
  simp only [h.locationOf]

/-- Where no text was put each file is as it was, and no other one is there. -/
theorem Changed.file_iff (h : Changed folders files tree tree') (hp : ¬ files place)
    (contents : Contents) :
    tree'.node? place = some (.file contents) ↔ tree.node? place = some (.file contents) := by
  have hchange := h.node place
  generalize tree.node? place = node, tree'.node? place = node' at hchange ⊢
  cases hchange with
  | same => exact Iff.rfl
  | folder hfolder => exact ⟨nofun, nofun⟩
  | file hfile => exact absurd hfile hp

/-- Where neither a directory was made nor a text put, all is as it was. -/
theorem Changed.node_eq (h : Changed folders files tree tree') (hfolder : ¬ folders place)
    (hfile : ¬ files place) : tree'.node? place = tree.node? place := by
  have hchange := h.node place
  generalize tree.node? place = node, tree'.node? place = node' at hchange ⊢
  cases hchange with
  | same => rfl
  | folder h => exact absurd h hfolder
  | file h => exact absurd h hfile

/-- Where no text was put, only a directory can be new, and nothing was there before. -/
theorem Changed.directory_of_ne (h : Changed folders files tree tree') (hfile : ¬ files place)
    (hne : tree'.node? place ≠ tree.node? place) :
    tree.node? place = none ∧ tree'.node? place = some .directory := by
  have hchange := h.node place
  generalize tree.node? place = node, tree'.node? place = node' at hchange hne ⊢
  cases hchange with
  | same => exact absurd rfl hne
  | folder => exact ⟨rfl, rfl⟩
  | file h => exact absurd h hfile

/-! ## Single actions -/

/-- What is put somewhere changes this place and no other. -/
theorem changed_put {node : FileNode} (hroot : location ≠ [])
    (h : NodeChange folders files location (tree.node? location) (some node)) :
    Changed folders files tree (tree.put location node) := by
  refine ⟨rfl, fun place => ?_⟩
  by_cases hplace : place = location
  · subst hplace
    rw [node?_put tree _ node hroot, if_pos rfl]
    exact h
  · by_cases hempty : place = []
    · subst hempty
      exact .same _
    · rw [node?_put tree _ node hempty, if_neg hplace]
      exact .same _

/-- Writing a file puts a text at the place of its path. -/
theorem changed_write (h : tree.write path text = .ok tree') :
    Changed Nowhere (tree.PlacesOf [path]) tree tree' := by
  obtain ⟨rfl, hn, -⟩ := write_ok h
  refine changed_put ?_ (.file ⟨path, List.mem_singleton_self _, rfl⟩ hn text)
  intro hroot
  rw [hroot] at hn
  exact hn rfl

/-- Making a directory puts one at the place of its path, where nothing was. -/
theorem changed_makeDirectory (h : tree.makeDirectory path = .ok tree') :
    Changed (tree.PlacesOf [path]) Nowhere tree tree' := by
  unfold makeDirectory at h
  cases hfollow : tree.follow path with
  | error error =>
    rw [hfollow] at h
    cases h
  | ok destination =>
    rw [hfollow] at h
    cases destination with
    | directory | file => cases h
    | vacant location =>
      cases h
      have hnone : tree.node? location = none := foundIn_follow hfollow
      have hlocation : location = tree.locationOf path := location_follow hfollow
      refine changed_put ?_ ?_
      · intro hroot
        rw [hroot] at hnone
        cases hnone
      · rw [hnone]
        exact .folder ⟨path, List.mem_singleton_self _, hlocation⟩

/-! ## Making directories -/

/-- Actions on a tree that is passed along. -/
abbrev Action (α : Type) : Type := StateM FileTree (Except FileError α)

/-- What comes of making sure that a directory is there, by where its path leads. -/
def ensured (tree : FileTree) (path : String) : Except FileError Unit × FileTree :=
  match tree.follow path with
  | .ok (.directory _) => (.ok (), tree)
  | .ok (.file ..) => (.error .occupied, tree)
  | .ok (.vacant location) => (.ok (), tree.put location .directory)
  | .error error => (.error error, tree)

/-- A directory that is there already will do; anything else there is in the way. -/
theorem ensureDirectory_eq (path : String) (tree : FileTree) :
    (FileAccess.ensureDirectory path : Action Unit) tree = tree.ensured path := by
  have hmake : (FileAccess.makeDirectory path : Action Unit) tree =
      commit (·.makeDirectory path) tree := rfl
  have hpresent : (FileAccess.isDirectory path : StateM FileTree Bool) tree =
      ((tree.directory? path).isSome, tree) := by
    show ((tree.directory? path |>.map tree.names).isSome, tree) = _
    rw [Option.isSome_map]
  rw [FileAccess.ensureDirectory, bind_eq, hmake, commit, makeDirectory, ensured]
  rw [directory?] at hpresent
  cases hfollow : tree.follow path with
  | error error =>
    rw [hfollow] at hpresent
    show (FileAccess.isDirectory path >>= _ : StateM FileTree (Except FileError Unit)) tree = _
    rw [bind_eq, hpresent]
    rfl
  | ok destination =>
    rw [hfollow] at hpresent
    cases destination with
    | vacant location => rfl
    | directory | file =>
      show (FileAccess.isDirectory path >>= _ : StateM FileTree (Except FileError Unit)) tree = _
      rw [bind_eq, hpresent]
      rfl

theorem changed_ensured (path : String) (tree : FileTree) :
    Changed (tree.PlacesOf [path]) Nowhere tree (tree.ensured path).2 := by
  unfold ensured
  cases hfollow : tree.follow path with
  | error error => exact .refl tree
  | ok destination =>
    cases destination with
    | directory | file => exact .refl tree
    | vacant location =>
      refine changed_makeDirectory ?_
      rw [makeDirectory, hfollow]
      rfl

/-- If the way to the first directory is missing, it is tried once more when those above are
made. -/
theorem createFirst_cons (path : String) (above : List String) (tree : FileTree)
    (hpath : path.isEmpty = false) :
    (FileAccess.createFirst (path :: above) : Action Unit) tree =
      match tree.ensured path with
      | (.error .notFound, between) =>
        match (FileAccess.createFirst above : Action Unit) between with
        | (.ok (), between') => between'.ensured path
        | (.error error, between') => (.error error, between')
      | outcome => outcome := by
  rw [FileAccess.createFirst, hpath, if_neg Bool.false_ne_true, bind_eq, ensureDirectory_eq]
  obtain ⟨⟨error⟩ | ⟨⟩, between⟩ := tree.ensured path
  · cases error with
    | notFound =>
      show (FileAccess.createFirst above >>= _ : StateM FileTree (Except FileError Unit)) between =
        _
      rw [bind_eq]
      dsimp only
      generalize (FileAccess.createFirst above : Action Unit) between = outcome
      obtain ⟨error | ⟨⟩, between'⟩ := outcome
      · rfl
      · exact ensureDirectory_eq path between'
    | _ => rfl
  · rfl

/-- Whatever comes of it, directories are made at places of the paths only. -/
theorem changed_createFirst (paths : List String) (tree : FileTree) :
    Changed (tree.PlacesOf paths) Nowhere tree
      ((FileAccess.createFirst paths : Action Unit) tree).2 := by
  induction paths generalizing tree with
  | nil => exact .refl tree
  | cons path above ih =>
    have hfirst : ∀ place, tree.PlacesOf [path] place → tree.PlacesOf (path :: above) place := by
      rintro place ⟨other, hmem, rfl⟩
      exact ⟨other, List.mem_cons.2 (.inl (List.mem_singleton.1 hmem)), rfl⟩
    have hothers : ∀ place, tree.PlacesOf above place → tree.PlacesOf (path :: above) place := by
      rintro place ⟨other, hmem, rfl⟩
      exact ⟨other, List.mem_cons_of_mem _ hmem, rfl⟩
    by_cases hempty : path.isEmpty = true
    · rw [FileAccess.createFirst, if_pos hempty]
      exact .refl tree
    have hensured := changed_ensured path tree
    rw [createFirst_cons path above tree (Bool.not_eq_true _ ▸ hempty)]
    generalize tree.ensured path = outcome at hensured ⊢
    obtain ⟨result, between⟩ := outcome
    have hbetween := hensured.mono hfirst fun _ h => h
    split
    · -- the way to it is missing: the directories above are made, and then it is tried once more
      rename_i heq
      cases heq
      have habove := ih between
      rw [hensured.placesOf] at habove
      generalize (FileAccess.createFirst above : Action Unit) between = outcome at habove ⊢
      obtain ⟨result, between'⟩ := outcome
      have hbetween' := hbetween.trans (habove.mono hothers fun _ h => h)
      cases result with
      | error error => exact hbetween'
      | ok =>
        have hagain := changed_ensured path between'
        rw [hbetween'.placesOf] at hagain
        exact hbetween'.trans (hagain.mono hfirst fun _ h => h)
    · exact hbetween

/-- Directories are made at the places on the way only. -/
theorem changed_createDirectories (path : String) (tree : FileTree) :
    Changed (tree.PlacesOf (path :: Path.ancestors path)) Nowhere tree
      ((FileAccess.createDirectories path : Action Unit) tree).2 :=
  changed_createFirst _ tree

theorem createDirectories_of_directory (h : tree.follow path = .ok (.directory location)) :
    (FileAccess.createDirectories path : Action Unit) tree = (.ok (), tree) := by
  rw [FileAccess.createDirectories, createFirst_cons _ _ _ (follow_eq_ok_iff.1 h).1.2.1, ensured, h]

theorem createDirectories_of_file {contents : Contents}
    (h : tree.follow path = .ok (.file location contents)) :
    (FileAccess.createDirectories path : Action Unit) tree = (.error .occupied, tree) := by
  rw [FileAccess.createDirectories, createFirst_cons _ _ _ (follow_eq_ok_iff.1 h).1.2.1, ensured, h]

end LintTypes.FileTree
