import LintTypes.Files.Access
import Mathlib.Tactic.SplitIfs

/-!
# Writing to a file tree

A path leads to one place, whatever the tree holds on the way: `FileTree.locationOf` says which.
Writing a file changes what there is at its place and nothing else. The place was no directory, so
no way to another place led through it, and all paths lead where they did before.
-/

namespace LintTypes

/-- What was put under a key is found by it, and by any other key what was found before. -/
theorem Entries.lookup_insert {κ α : Type} [BEq κ] [LawfulBEq κ] [DecidableEq κ] (key place : κ)
    (value : α) (entries : List (κ × α)) :
    (Entries.insert key value entries).lookup place =
      if place = key then some value else entries.lookup place := by
  induction entries with
  | nil =>
    rw [insert, List.lookup_cons]
    split <;> simp_all
  | cons entry entries ih =>
    obtain ⟨k, v⟩ := entry
    rw [insert]
    split
    · rename_i hkey
      subst hkey
      simp only [List.lookup_cons]
      split <;> simp_all
    · rename_i hkey
      rw [List.lookup_cons, List.lookup_cons, ih]
      split
      · rename_i hplace
        rw [eq_of_beq hplace, if_neg hkey]
      · rfl

namespace FileTree

theorem bind_eq {α β : Type} (action : StateM FileTree α) (next : α → StateM FileTree β)
    (tree : FileTree) : (action >>= next) tree = next (action tree).1 (action tree).2 := rfl

variable {tree tree' : FileTree} {start : Location} {piece : String} {pieces : List String}
  {destination : Destination}

/-- Putting something at a place changes what there is at this place and at no other. -/
theorem node?_put (tree : FileTree) {place : Location} (location : Location) (node : FileNode)
    (hp : place ≠ []) :
    (tree.put location node).node? place =
      if place = location then some node else tree.node? place := by
  cases place with
  | nil => exact absurd rfl hp
  | cons name parent => exact Entries.lookup_insert ..

/-! ## Places -/

/-- The place of a destination. -/
def Destination.location : Destination → Location
  | directory location | file location _ | vacant location => location

/-- The place that one piece leads to. -/
def locationBehind (start : Location) (piece : String) : Location :=
  if piece = "." then start else if piece = ".." then start.tail else piece :: start

/-- The place where a path starts. -/
def startOf (tree : FileTree) (path : String) : Location :=
  if path.startsWith "/" then [] else tree.workingDirectory

/-- The place that a path leads to. -/
def locationOf (tree : FileTree) (path : String) : Location :=
  (pathPieces path).foldl locationBehind (tree.startOf path)

@[simp] theorem Destination.location_ofNode (location : Location) (node : Option FileNode) :
    (ofNode location node).location = location := by
  match node with
  | none | some .directory | some (.file _) => rfl

theorem location_step (h : tree.step start piece = .ok destination) :
    destination.location = locationBehind start piece := by
  unfold step at h
  unfold locationBehind
  split_ifs at h ⊢
  · cases h
    rfl
  · cases h
    rfl
  · cases h
    exact Destination.location_ofNode ..

/-- All pieces but the last lead to directories. -/
theorem walk_cons_ok_iff (hmore : pieces ≠ []) :
    tree.walk start (piece :: pieces) = .ok destination ↔
      ∃ next, tree.step start piece = .ok (.directory next) ∧
        tree.walk next pieces = .ok destination := by
  rw [walk.eq_3 _ _ _ _ hmore]
  cases hstep : tree.step start piece with
  | error error => exact ⟨nofun, nofun⟩
  | ok first =>
    cases first with
    | directory next =>
      constructor
      · exact fun h => ⟨next, rfl, h⟩
      · rintro ⟨_, ⟨⟩, h⟩
        exact h
    | file => exact ⟨nofun, nofun⟩
    | vacant => exact ⟨nofun, nofun⟩

/-- A walk that succeeds ends where its pieces lead, whatever is there. -/
theorem location_walk (h : tree.walk start pieces = .ok destination) :
    destination.location = pieces.foldl locationBehind start := by
  induction start, pieces using walk.induct with
  | case1 start =>
    cases h
    rfl
  | case2 start piece => exact location_step h
  | case3 start piece pieces hmore ih =>
    obtain ⟨next, hstep, hwalk⟩ := (walk_cons_ok_iff hmore).1 h
    have hnext : next = locationBehind start piece := location_step hstep
    rw [List.foldl_cons, ← hnext]
    exact ih next hwalk

/-- The tree holds at the place what the destination says, if that is no directory. -/
def Destination.FoundIn (tree : FileTree) : Destination → Prop
  | directory _ => True
  | file location contents => tree.node? location = some (.file contents)
  | vacant location => tree.node? location = none

/-- What a walk finds at its end is there. -/
theorem foundIn_walk (h : tree.walk start pieces = .ok destination) :
    destination.FoundIn tree := by
  have hstep : ∀ {start piece destination}, tree.step start piece = .ok destination →
      destination.FoundIn tree := by
    intro start piece destination h
    unfold step at h
    split_ifs at h
    · cases h
      trivial
    · cases h
      trivial
    · cases h
      match hnode : tree.node? (piece :: start) with
      | none | some (.file _) => exact hnode
      | some .directory => trivial
  induction start, pieces using walk.induct with
  | case1 start =>
    cases h
    trivial
  | case2 start piece => exact hstep h
  | case3 start piece pieces hmore ih =>
    obtain ⟨next, -, hwalk⟩ := (walk_cons_ok_iff hmore).1 h
    exact ih next hwalk

/-! ## Putting a file -/

/-- The destination when a file was put at a place that was no directory. -/
def Destination.afterPut (location : Location) (contents : Contents) : Destination → Destination
  | directory place => directory place
  | file place old => if place = location then file location contents else file place old
  | vacant place => if place = location then file location contents else vacant place

section Put

variable {location : Location} {contents : Contents}

theorem Destination.afterPut_ne_directory (h : ∀ place, destination ≠ .directory place) :
    ∀ place, destination.afterPut location contents ≠ .directory place := by
  intro place
  cases destination with
  | directory other => exact absurd rfl (h other)
  | vacant | file =>
    rw [afterPut]
    split_ifs <;> exact nofun

/-- A file that is put somewhere changes a step only by what is found at its end. -/
theorem step_put (hn : tree.node? location ≠ some .directory) (start : Location) (piece : String) :
    (tree.put location (.file contents)).step start piece =
      (tree.step start piece).map (Destination.afterPut location contents) := by
  unfold step
  split_ifs
  · rfl
  · rfl
  · rfl
  · rw [node?_put _ _ _ (List.cons_ne_nil _ _)]
    split_ifs with hplace
    · match hnode : tree.node? (piece :: start) with
      | none | some (.file _) =>
        simp [Destination.ofNode, Except.map, Destination.afterPut, hplace]
      | some .directory => exact absurd (hplace ▸ hnode) hn
    · match tree.node? (piece :: start) with
      | none | some (.file _) =>
        simp [Destination.ofNode, Except.map, Destination.afterPut, hplace]
      | some .directory => rfl

/-- A walk leads where it did before, since the file took the place of no directory. -/
theorem walk_put (hn : tree.node? location ≠ some .directory)
    (h : tree.walk start pieces = .ok destination) :
    (tree.put location (.file contents)).walk start pieces =
      .ok (destination.afterPut location contents) := by
  induction start, pieces using walk.induct with
  | case1 start =>
    cases h
    rfl
  | case2 start piece =>
    have h : tree.step start piece = .ok destination := h
    show step _ start piece = _
    rw [step_put hn, h]
    rfl
  | case3 start piece pieces hmore ih =>
    obtain ⟨next, hstep, hwalk⟩ := (walk_cons_ok_iff hmore).1 h
    refine (walk_cons_ok_iff hmore).2 ⟨next, ?_, ih next hwalk⟩
    rw [step_put hn, hstep]
    rfl

end Put

/-! ## Following paths -/

section Paths

variable {path text : String}

/-- Whether a path can be followed at all is a matter of its text. -/
def IsFollowed (path : String) : Prop :=
  path.contains '\x00' = false ∧ path.isEmpty = false ∧ path.utf8ByteSize ≤ maxPathSize

/-- A path is followed by walking along its pieces. -/
theorem follow_eq_ok_iff :
    tree.follow path = .ok destination ↔
      IsFollowed path ∧ tree.walk (tree.startOf path) (pathPieces path) = .ok destination := by
  unfold follow IsFollowed
  split
  · simp_all
  split
  · simp_all
  split
  · rename_i hsize
    simp [Nat.not_le.2 hsize]
  · simp_all [startOf]

theorem follow_of_isFollowed (h : IsFollowed path) :
    tree.follow path = tree.walk (tree.startOf path) (pathPieces path) := by
  obtain ⟨hnull, hempty, hsize⟩ := h
  rw [follow, if_neg (by rw [hnull]; exact Bool.false_ne_true),
    if_neg (by rw [hempty]; exact Bool.false_ne_true), if_neg (Nat.not_lt.2 hsize), startOf]

theorem location_follow (h : tree.follow path = .ok destination) :
    destination.location = tree.locationOf path :=
  location_walk (follow_eq_ok_iff.1 h).2

theorem foundIn_follow (h : tree.follow path = .ok destination) : destination.FoundIn tree :=
  foundIn_walk (follow_eq_ok_iff.1 h).2

theorem follow_put {location : Location} {contents : Contents}
    (hn : tree.node? location ≠ some .directory) (h : tree.follow path = .ok destination) :
    (tree.put location (.file contents)).follow path =
      .ok (destination.afterPut location contents) := by
  obtain ⟨hpath, hwalk⟩ := follow_eq_ok_iff.1 h
  exact follow_eq_ok_iff.2 ⟨hpath, walk_put hn hwalk⟩

/-! ## Reading and writing -/

/-- The text of a file is read where its path leads. -/
theorem read_of_follow {location : Location}
    (h : tree.follow path = .ok (.file location (.text text))) (hp : path.endsWith "/" = false) :
    tree.read path = .ok text := by
  simp [read, h, hp, bind, Except.bind, pure, Except.pure]

theorem follow_of_read (h : tree.read path = .ok text) :
    (∃ location, tree.follow path = .ok (.file location (.text text))) ∧
      path.endsWith "/" = false := by
  unfold read at h
  cases hfollow : tree.follow path with
  | error error =>
    rw [hfollow] at h
    cases h
  | ok destination =>
    rw [hfollow] at h
    simp only [bind, Except.bind] at h
    cases destination with
    | directory => cases h
    | vacant => cases h
    | file location contents =>
      dsimp only at h
      split at h
      · cases h
      · rename_i hp
        cases contents with
        | bytes => cases h
        | text value =>
          cases h
          exact ⟨⟨location, rfl⟩, by simpa using hp⟩

/-- A text is written where a path leads, unless a directory is there. -/
theorem follow_of_write (h : tree.write path text = .ok tree') :
    ∃ destination, tree.follow path = .ok destination ∧
      (∀ location, destination ≠ .directory location) ∧ path.endsWith "/" = false ∧
      tree' = tree.put destination.location (.file (.text text)) := by
  unfold write at h
  cases hfollow : tree.follow path with
  | error error =>
    rw [hfollow] at h
    cases h
  | ok destination =>
    rw [hfollow] at h
    simp only [bind, Except.bind] at h
    refine ⟨destination, rfl, ?_⟩
    cases destination with
    | directory => cases h
    | vacant | file =>
      dsimp only at h
      split at h
      · cases h
      · rename_i hp
        cases h
        exact ⟨nofun, by simpa using hp, rfl⟩

/-- Writing puts the text at the place of the path, which is no directory. -/
theorem write_ok (h : tree.write path text = .ok tree') :
    tree' = tree.put (tree.locationOf path) (.file (.text text)) ∧
      tree.node? (tree.locationOf path) ≠ some .directory ∧
      tree'.read path = .ok text := by
  obtain ⟨destination, hfollow, hdirectory, hp, rfl⟩ := follow_of_write h
  rw [← location_follow hfollow]
  have hfound := foundIn_follow hfollow
  have hn : tree.node? destination.location ≠ some .directory := by
    cases destination with
    | directory location => exact absurd rfl (hdirectory location)
    | vacant | file =>
      simp only [Destination.FoundIn] at hfound
      simp [Destination.location, hfound]
  have hafter : destination.afterPut destination.location (.text text) =
      .file destination.location (.text text) := by
    cases destination with
    | directory location => exact absurd rfl (hdirectory location)
    | vacant | file => simp [Destination.afterPut, Destination.location]
  exact ⟨rfl, hn, read_of_follow (hafter ▸ follow_put hn hfollow) hp⟩

/-- A file at another place is read as before. -/
theorem read_write_of_ne {other old : String} (h : tree.write path text = .ok tree')
    (hr : tree.read other = .ok old) (hne : tree.locationOf path ≠ tree.locationOf other) :
    tree'.read other = .ok old := by
  obtain ⟨rfl, hn, -⟩ := write_ok h
  obtain ⟨⟨location, hfollow⟩, hp⟩ := follow_of_read hr
  have hlocation : location = tree.locationOf other := location_follow hfollow
  subst hlocation
  have hafter : (tree.put (tree.locationOf path) (.file (.text text))).follow other =
      .ok (.file (tree.locationOf other) (.text old)) := by
    rw [follow_put hn hfollow, Destination.afterPut, if_neg hne.symm]
  exact read_of_follow hafter hp

/-- A file can be written to the path: the way is there, and no directory stands at its end. -/
def CanHold (tree : FileTree) (path : String) : Prop :=
  ∃ destination, tree.follow path = .ok destination ∧
    ∀ location, destination ≠ .directory location

theorem canHold_of_walk (hp : IsFollowed path) (location : Location)
    (hw : tree.walk (tree.startOf path) (pathPieces path) = .ok (.vacant location)) :
    tree.CanHold path :=
  ⟨_, follow_eq_ok_iff.2 ⟨hp, hw⟩, nofun⟩

/-- Writing succeeds where it can, and takes no other path away. -/
theorem CanHold.write (h : tree.CanHold path) (hp : path.endsWith "/" = false) (text : String) :
    ∃ tree', tree.write path text = .ok tree' ∧
      ∀ other, tree.CanHold other → tree'.CanHold other := by
  obtain ⟨destination, hfollow, hdirectory⟩ := h
  have hwrite : tree.write path text =
      .ok (tree.put destination.location (.file (.text text))) := by
    unfold FileTree.write
    rw [hfollow]
    cases destination with
    | directory location => exact absurd rfl (hdirectory location)
    | vacant | file =>
      simp [hp, bind, Except.bind, pure, Except.pure, Destination.location]
  refine ⟨_, hwrite, fun other hother => ?_⟩
  obtain ⟨place, hplace, hne⟩ := hother
  obtain ⟨heq, hn, -⟩ := write_ok hwrite
  rw [heq]
  exact ⟨_, follow_put hn hplace, Destination.afterPut_ne_directory hne⟩

end Paths

/-! ## Places in a folder -/

theorem pieces_ne_nil (text : List Char) : Path.pieces text ≠ [] := by
  cases text with
  | nil => exact List.cons_ne_nil _ _
  | cons c text =>
    rw [Path.pieces]
    split
    · exact List.cons_ne_nil _ _
    · split <;> exact List.cons_ne_nil _ _

/-- A slash cuts a path in two. -/
theorem pieces_append (before after : List Char) :
    Path.pieces (before ++ '/' :: after) = Path.pieces before ++ Path.pieces after := by
  induction before with
  | nil => simp [Path.pieces]
  | cons c before ih =>
    obtain ⟨piece, others, hpieces⟩ := List.exists_cons_of_ne_nil (pieces_ne_nil before)
    rw [List.cons_append, Path.pieces, Path.pieces, ih, hpieces]
    split <;> rfl

theorem pieces_of_single {name : List Char} (h : '/' ∉ name) : Path.pieces name = [name] := by
  induction name with
  | nil => rfl
  | cons c name ih =>
    have hc : c ≠ '/' := fun hc => h (hc ▸ List.mem_cons_self ..)
    rw [Path.pieces, if_neg hc, ih fun hname => h (List.mem_cons_of_mem _ hname)]

/-- A name that stands for an entry of a folder. -/
structure IsEntryName (name : String) : Prop where
  /-- It is a single name. -/
  single : '/' ∉ name.toList
  /-- It is there, -/
  ne_empty : name ≠ ""
  /-- and leads neither nowhere -/
  ne_here : name ≠ "."
  /-- nor upwards. -/
  ne_above : name ≠ ".."

/-- The text of the path of an entry. -/
theorem join_entry (base : String) {name : String} (h : IsEntryName name) :
    Path.join base name = name ∧ base = "" ∨
      (∃ before, base.toList = before ++ ['/'] ∧ Path.join base name = base ++ name) ∨
      base ≠ "" ∧ Path.join base name = base ++ "/" ++ name := by
  have hplain : name.startsWith "/" = false := by
    rw [String.startsWith_string_eq_false_iff]
    exact fun hfirst => h.single (hfirst.subset (by simp))
  unfold Path.join
  rw [hplain, Bool.false_or]
  by_cases hempty : base = ""
  · exact .inl ⟨by simp [hempty], hempty⟩
  have hnonempty : base.isEmpty = false := by simpa using hempty
  rw [hnonempty, if_neg Bool.false_ne_true]
  split
  · rename_i hlast
    rw [String.endsWith_eq_endsWith_toSlice, String.Slice.endsWith_string_iff] at hlast
    obtain ⟨before, hbefore⟩ := hlast
    exact .inr (.inl ⟨before, by simpa using hbefore.symm, rfl⟩)
  · exact .inr (.inr ⟨hempty, rfl⟩)

/-- An entry of a folder is one piece further on. -/
theorem pathPieces_join (base : String) {name : String} (h : IsEntryName name) :
    pathPieces (Path.join base name) = pathPieces base ++ [name] := by
  have hname : name.toList ≠ [] := by simpa using h.ne_empty
  unfold pathPieces
  rcases join_entry base h with ⟨heq, rfl⟩ | ⟨before, hbase, heq⟩ | ⟨-, heq⟩
  · rw [heq, pieces_of_single h.single]
    simp [Path.pieces, hname]
  · rw [heq, String.toList_append, hbase, List.append_assoc, List.singleton_append, pieces_append,
      pieces_append, pieces_of_single h.single]
    simp [Path.pieces, hname]
  · rw [heq, String.toList_append, String.toList_append, List.append_assoc]
    show List.map _ (List.filter _ (Path.pieces (base.toList ++ '/' :: name.toList))) = _
    rw [pieces_append, pieces_of_single h.single]
    simp [hname]

/-- An entry of a folder has the start of the folder. -/
theorem startOf_join (tree : FileTree) (base : String) {name : String} (h : IsEntryName name) :
    tree.startOf (Path.join base name) = tree.startOf base := by
  have hfirst : (Path.join base name).startsWith "/" = base.startsWith "/" := by
    rw [Bool.eq_iff_iff, String.startsWith_string_iff, String.startsWith_string_iff]
    rcases join_entry base h with ⟨heq, rfl⟩ | ⟨before, hbase, heq⟩ | ⟨hne, heq⟩
    · rw [heq]
      constructor
      · exact fun hfirst => absurd (hfirst.subset (by simp)) h.single
      · exact fun hfirst => by simp at hfirst
    · rw [heq, String.toList_append, hbase]
      cases before <;> simp
    · rw [heq, String.toList_append, String.toList_append]
      cases hbase : base.toList with
      | nil => exact absurd (by simpa using hbase) hne
      | cons c rest => simp
  unfold startOf
  rw [hfirst]

/-- The path of an entry does not end with a slash, so it may stand for a file. -/
theorem endsWith_join (base : String) {name : String} (h : IsEntryName name) :
    (Path.join base name).endsWith "/" = false := by
  have hlast : ∀ before : String, (before ++ name).endsWith "/" = false := by
    intro before
    rw [String.endsWith_eq_endsWith_toSlice, String.Slice.endsWith_string_eq_false_iff]
    rintro ⟨rest, hrest⟩
    have hname : name.toList ≠ [] := by simpa using h.ne_empty
    obtain ⟨init, last, hinit⟩ := (List.eq_nil_or_concat name.toList).resolve_left hname
    have htext : rest ++ ['/'] = (before.toList ++ init) ++ [last] := by
      simpa [hinit] using hrest
    obtain ⟨-, hchar⟩ := List.append_inj' htext rfl
    have hslash : last = '/' := (List.cons.inj hchar).1.symm
    exact h.single (by simp [hinit, hslash])
  rcases join_entry base h with ⟨heq, -⟩ | ⟨_, -, heq⟩ | ⟨-, heq⟩
  · rw [heq]
    simpa using hlast ""
  · rw [heq]
    exact hlast base
  · rw [heq]
    exact hlast (base ++ "/")

/-- An entry of a folder has its place in that of the folder. -/
theorem locationOf_join (tree : FileTree) (base : String) {name : String} (h : IsEntryName name) :
    tree.locationOf (Path.join base name) = name :: tree.locationOf base := by
  rw [locationOf, pathPieces_join base h, startOf_join tree base h, List.foldl_append]
  show locationBehind _ name = _
  rw [locationBehind, if_neg h.ne_here, if_neg h.ne_above]
  rfl

end FileTree

end LintTypes
