import LintTypes.Proofs.CommandLines
import LintTypes.Proofs.ReadingActions

/-!
# Merged rules documents

Several rules documents are read one after the other, and the rules of each come behind those of the
documents before it. The invariant is that the rules so far are the documents so far, one behind the
other, with no name in two of them. It is lost at the first name that an earlier document has, and
there the reading ends; it also ends at the first file that cannot be read.

A document has no name twice, so a name that is found among the rules so far always comes from an
earlier document.
-/

namespace LintTypes

/-! ## Keys -/

namespace Entries

variable {κ α : Type} [DecidableEq κ]

theorem hasKey_iff {key : κ} {entries : List (κ × α)} :
    hasKey key entries = true ↔ key ∈ entries.map Prod.fst := by
  simp [hasKey]

theorem keys_insert (key : κ) (value : α) (entries : List (κ × α)) :
    (insert key value entries).map Prod.fst =
      if key ∈ entries.map Prod.fst then entries.map Prod.fst
      else entries.map Prod.fst ++ [key] := by
  induction entries with
  | nil => rfl
  | cons entry entries ih =>
    obtain ⟨k, v⟩ := entry
    rw [insert]
    by_cases hk : k = key
    · simp [hk]
    · have hmem : key ∈ k :: entries.map Prod.fst ↔ key ∈ entries.map Prod.fst := by
        simp [Ne.symm hk]
      simp only [if_neg hk, List.map_cons, ih, hmem]
      split <;> rfl

theorem nodup_insert {entries : List (κ × α)} (h : (entries.map Prod.fst).Nodup) (key : κ)
    (value : α) : ((insert key value entries).map Prod.fst).Nodup := by
  rw [keys_insert]
  split
  · exact h
  · rename_i hkey
    exact List.nodup_append.2 ⟨h, List.nodup_singleton key, fun k hk l hl heq =>
      hkey (List.mem_singleton.1 hl ▸ heq ▸ hk)⟩

theorem nodup_unique (entries : List (κ × α)) : ((unique entries).map Prod.fst).Nodup := by
  have hfold : ∀ kept : List (κ × α), (kept.map Prod.fst).Nodup →
      ((entries.foldl (fun kept entry => insert entry.1 entry.2 kept) kept).map
        Prod.fst).Nodup := by
    induction entries with
    | nil => exact fun _ h => h
    | cons entry entries ih => exact fun kept h => ih _ (nodup_insert h _ _)
  exact hfold [] .nil

end Entries

/-! ## Documents -/

open Command (bind_eq_ok)

/-- Where something else is found than what is expected, reading fails. -/
theorem Document.unexpected_ne_ok {α : Type} {expected : String} {c : Cursor}
    {outcome : α × Cursor} : Document.unexpected expected c ≠ .ok outcome := by
  intro h
  unfold Document.unexpected at h
  split at h
  · cases h
  · cases h
  · obtain ⟨found, hfound, hfault⟩ := bind_eq_ok h
    cases hfault

/-- A map has no key twice. -/
theorem Document.nodup_readMap {α : Type} {value : Reading α} {c c' : Cursor}
    {entries : List (String × α)} (h : Document.readMap value c = .ok (entries, c')) :
    (entries.map Prod.fst).Nodup := by
  simp only [Document.readMap] at h
  split at h
  · obtain ⟨⟨fields, rest⟩, hfields, hunique⟩ := bind_eq_ok h
    cases hunique
    exact Entries.nodup_unique fields
  · exact absurd h Document.unexpected_ne_ok

namespace Rules

/-- The names of the rules, in order. -/
def names (rules : Rules) : List String := rules.map Prod.fst

theorem nodup_ofText {text : String} {rules : Rules} (h : ofText text = .ok rules) :
    rules.names.Nodup := by
  obtain ⟨⟨document, c⟩, hread, hdone⟩ := bind_eq_ok h
  cases hdone
  exact Document.nodup_readMap hread

open FileTree (run run_bind)

variable {tree : FileTree} {path text : String} {paths : List String} {rules document : Rules}
  {documents : List Rules}

/-- What comes of reading a document does not touch the tree. -/
theorem run_load (path : String) (tree : FileTree) :
    run (load path) tree =
      match tree.read path with
      | .error cause => (.error (.io path cause), tree)
      | .ok text =>
        match ofText text with
        | .error fault => (.error (.invalidRules path fault), tree)
        | .ok document => (.ok document, tree) := by
  have htext : run (loadText path) tree = ((tree.read path).mapError (.io path), tree) := rfl
  rw [load, run_bind, htext]
  cases tree.read path with
  | error cause => rfl
  | ok text =>
    dsimp only [Except.mapError]
    cases ofText text <;> rfl

/-- What the documents at the paths hold, up to the first file that cannot be read, and the error of
that file, if there is one. -/
inductive Readings (tree : FileTree) : List String → List Rules → Option Error → Prop
  /-- All has been read. -/
  | nil : Readings tree [] [] none
  /-- A document comes first. -/
  | cons {path text : String} {paths : List String} {document : Rules} {documents : List Rules}
      {stop : Option Error} (hread : tree.read path = .ok text)
      (hrules : ofText text = .ok document) (h : Readings tree paths documents stop) :
      Readings tree (path :: paths) (document :: documents) stop
  /-- The first file cannot be read. -/
  | unreadable {path : String} {cause : FileError} (paths : List String)
      (hread : tree.read path = .error cause) :
      Readings tree (path :: paths) [] (some (.io path cause))
  /-- The first file is no rules document. -/
  | malformed {path text : String} {fault : Fault} (paths : List String)
      (hread : tree.read path = .ok text) (hrules : ofText text = .error fault) :
      Readings tree (path :: paths) [] (some (.invalidRules path fault))

theorem exists_readings (tree : FileTree) (paths : List String) :
    ∃ documents stop, Readings tree paths documents stop := by
  induction paths with
  | nil => exact ⟨[], none, .nil⟩
  | cons path paths ih =>
    cases hread : tree.read path with
    | error cause => exact ⟨[], _, .unreadable paths hread⟩
    | ok text =>
      cases hrules : ofText text with
      | error fault => exact ⟨[], _, .malformed paths hread hrules⟩
      | ok document =>
        obtain ⟨documents, stop, h⟩ := ih
        exact ⟨document :: documents, stop, .cons hread hrules h⟩

/-- A document that has been read has no name twice. -/
theorem Readings.nodup {stop : Option Error} (h : Readings tree paths documents stop) :
    ∀ document ∈ documents, document.names.Nodup := by
  induction h with
  | nil | unreadable | malformed => exact nofun
  | cons _ hrules _ ih => exact List.forall_mem_cons.2 ⟨nodup_ofText hrules, ih⟩

/-! ## Names in several documents -/

/-- No name is in two of the documents. -/
def Separate (documents : List Rules) : Prop :=
  documents.Pairwise fun earlier later => ∀ name ∈ later.names, name ∉ earlier.names

/-- One of the documents has the name. -/
def Named (documents : List Rules) (name : String) : Prop :=
  ∃ document ∈ documents, name ∈ document.names

/-- The name is the first one, in reading order, that an earlier document has. -/
def FirstRepeated (documents : List Rules) (name : String) : Prop :=
  ∃ (earlier : List Rules) (front : Rules) (rule : Rule) (back : Rules) (later : List Rules),
    documents = earlier ++ (front ++ (name, rule) :: back) :: later ∧ Separate earlier ∧
      (∀ other ∈ names front, ¬ Named earlier other) ∧ Named earlier name

theorem names_append (rules others : Rules) :
    names (rules ++ others) = rules.names ++ others.names :=
  List.map_append

theorem mem_names_flatten {name : String} :
    name ∈ names documents.flatten ↔ Named documents name := by
  simp [names, Named]

theorem separate_concat :
    Separate (documents ++ [document]) ↔
      Separate documents ∧ ∀ name ∈ document.names, ¬ Named documents name := by
  simp only [Separate, Named, List.pairwise_append, List.pairwise_singleton, true_and,
    List.mem_singleton, forall_eq, not_exists, not_and]
  exact and_congr_right fun _ => ⟨fun h name hname other hother => h other hother name hname,
    fun h other hother name hname => h name hname other hother⟩

/-- Either no name is repeated or there is a first name that is. -/
theorem separate_or_firstRepeated (documents : List Rules) :
    Separate documents ∨ ∃ name, FirstRepeated documents name := by
  induction documents using List.reverseRecOn with
  | nil => exact .inl .nil
  | append_singleton earlier document ih =>
    rcases ih with hs | ⟨name, before, front, rule, back, later, rfl, hrepeated⟩
    · by_cases hnew : ∀ name ∈ document.names, ¬ Named earlier name
      · exact .inl (separate_concat.2 ⟨hs, hnew⟩)
      · classical
        obtain ⟨name, hname, hold⟩ : ∃ name ∈ document.names, Named earlier name := by
          simpa using hnew
        obtain ⟨entry, hentry, rfl⟩ := List.mem_map.1 hname
        have hfound : (document.find? fun entry => decide (Named earlier entry.1)).isSome = true :=
          List.find?_isSome.2 ⟨entry, hentry, decide_eq_true hold⟩
        obtain ⟨⟨first, rule⟩, hfind⟩ := Option.isSome_iff_exists.1 hfound
        obtain ⟨hfirst, front, back, rfl, hfront⟩ := List.find?_eq_some_iff_append.1 hfind
        refine .inr ⟨first, earlier, front, rule, back, [], rfl, hs, fun other hother => ?_,
          of_decide_eq_true hfirst⟩
        obtain ⟨passed, hpassed, rfl⟩ := List.mem_map.1 hother
        simpa using hfront passed hpassed
    · refine .inr ⟨name, before, front, rule, back, later ++ [document], ?_, hrepeated⟩
      rw [List.append_assoc, List.cons_append]

/-! ## Merging -/

/-- Rules with new names come behind those that are there. -/
theorem merge_append {front : Rules} (hnodup : front.names.Nodup)
    (h : ∀ name ∈ front.names, name ∉ rules.names) (back : Rules) :
    rules.merge (front ++ back) = merge (rules ++ front) back := by
  induction front generalizing rules with
  | nil => rw [List.nil_append, List.append_nil]
  | cons entry front ih =>
    obtain ⟨name, rule⟩ := entry
    obtain ⟨hname, hnodup⟩ : name ∉ names front ∧ (names front).Nodup := List.nodup_cons.1 hnodup
    obtain ⟨hnew, h⟩ : name ∉ rules.names ∧ ∀ other ∈ names front, other ∉ rules.names :=
      List.forall_mem_cons.1 h
    have hdistinct : ∀ other ∈ names front, other ∉ names (rules ++ [(name, rule)]) := by
      intro other hother hold
      rw [names_append, List.mem_append] at hold
      rcases hold with hold | hold
      · exact h other hother hold
      · obtain rfl : other = name := List.mem_singleton.1 hold
        exact hname hother
    rw [List.cons_append, merge, if_neg fun hkey => hnew (Entries.hasKey_iff.1 hkey),
      ih hnodup hdistinct, List.append_assoc, List.singleton_append]

/-- The documents so far, and one more without any of their names. -/
theorem merge_separate (h : Separate (documents ++ [document])) (hnodup : document.names.Nodup) :
    merge documents.flatten document = .ok (documents ++ [document]).flatten := by
  have hnew : ∀ name ∈ document.names, name ∉ names documents.flatten := fun name hname hold =>
    (separate_concat.1 h).2 name hname (mem_names_flatten.1 hold)
  have hall := merge_append hnodup hnew []
  rw [List.append_nil, merge] at hall
  rw [hall, List.flatten_concat]

/-- Merging ends at the first name that one of the documents so far has. -/
theorem merge_repeated {front back : Rules} {name : String} {rule : Rule}
    (hnodup : (names (front ++ (name, rule) :: back)).Nodup)
    (hfront : ∀ other ∈ front.names, ¬ Named documents other) (hname : Named documents name) :
    merge documents.flatten (front ++ (name, rule) :: back) = .error (.duplicateRule name) := by
  rw [names_append] at hnodup
  have hnew : ∀ other ∈ front.names, other ∉ names documents.flatten := fun other hother hold =>
    hfront other hother (mem_names_flatten.1 hold)
  have hkey : Entries.hasKey name (documents.flatten ++ front) = true := by
    refine Entries.hasKey_iff.2 ?_
    rw [List.map_append]
    exact List.mem_append_left _ (mem_names_flatten.2 hname)
  rw [merge_append hnodup.of_append_left hnew, merge, if_pos hkey]

/-! ## Loading -/

/-- The rules of a document are merged with those that have been read. -/
theorem run_loadOnto_cons (rules : Rules) (path : String) (paths : List String) (tree : FileTree) :
    run (loadOnto rules (path :: paths)) tree =
      match run (load path) tree with
      | (.error error, between) => (.error error, between)
      | (.ok document, between) =>
        match rules.merge document with
        | .ok merged => run (loadOnto merged paths) between
        | .error error => (.error error, between) := by
  rw [loadOnto, run_bind]
  generalize run (load path) tree = outcome
  obtain ⟨error | document, between⟩ := outcome
  · rfl
  · have hmerge : run (ExceptT.mk (pure (rules.merge document))) between =
        (rules.merge document, between) := rfl
    simp only [run_bind, hmerge]
    cases rules.merge document <;> rfl

/-- With no name in two documents, all of them are read up to the file that cannot be. -/
theorem run_loadOnto_separate {stop : Option Error} (h : Readings tree paths documents stop)
    (earlier : List Rules) (hs : Separate (earlier ++ documents)) :
    run (loadOnto earlier.flatten paths) tree =
      (stop.elim (.ok (earlier ++ documents).flatten) .error, tree) := by
  induction h generalizing earlier with
  | nil =>
    rw [List.append_nil]
    rfl
  | @cons path text paths document documents stop hread hrules h ih =>
    have hsplit : earlier ++ document :: documents = (earlier ++ [document]) ++ documents := by simp
    rw [hsplit] at hs ⊢
    have hfirst : Separate (earlier ++ [document]) := (List.pairwise_append.1 hs).1
    rw [run_loadOnto_cons, run_load, hread]
    simp only [hrules, merge_separate hfirst (nodup_ofText hrules)]
    exact ih _ hs
  | unreadable paths hread => rw [run_loadOnto_cons, run_load, hread]; rfl
  | malformed paths hread hrules =>
    rw [run_loadOnto_cons, run_load, hread]
    simp only [hrules, Option.elim]

/-- Reading ends at the first name that an earlier document has. -/
theorem run_loadOnto_repeated {stop : Option Error} (earlier between : List Rules)
    {front back : Rules} {name : String} {rule : Rule} {later : List Rules}
    (h : Readings tree paths (between ++ (front ++ (name, rule) :: back) :: later) stop)
    (hs : Separate (earlier ++ between))
    (hfront : ∀ other ∈ front.names, ¬ Named (earlier ++ between) other)
    (hname : Named (earlier ++ between) name) :
    run (loadOnto earlier.flatten paths) tree = (.error (.duplicateRule name), tree) := by
  induction between generalizing earlier paths with
  | nil =>
    rw [List.append_nil] at hfront hname
    cases h with
    | cons hread hrules h =>
      rw [run_loadOnto_cons, run_load, hread]
      simp only [hrules, merge_repeated (nodup_ofText hrules) hfront hname]
  | cons document between ih =>
    have hsplit : earlier ++ document :: between = (earlier ++ [document]) ++ between := by simp
    rw [hsplit] at hs hfront hname
    cases h with
    | cons hread hrules h =>
      have hfirst : Separate (earlier ++ [document]) := (List.pairwise_append.1 hs).1
      rw [run_loadOnto_cons, run_load, hread]
      simp only [hrules, merge_separate hfirst (nodup_ofText hrules)]
      exact ih _ h hs hfront hname

/-- Documents are read up to the first file that cannot be read, and none of them has a name twice.
If no name is in two of them, the outcome is the documents one behind the other, or the error of
that file. Otherwise there is a first name that an earlier document has, and the outcome is an error
that gives this name. In any case the tree stays as it is. -/
theorem loadAll_outcome (tree : FileTree) (paths : List String) :
    (∃ documents stop, Readings tree paths documents stop) ∧
      ∀ documents stop, Readings tree paths documents stop →
        (∀ document ∈ documents, document.names.Nodup) ∧
        (Separate documents ∨ ∃ name, FirstRepeated documents name) ∧
        (Separate documents →
          run (loadAll paths) tree = (stop.elim (.ok documents.flatten) .error, tree)) ∧
        ∀ name, FirstRepeated documents name →
          run (loadAll paths) tree = (.error (.duplicateRule name), tree) := by
  refine ⟨exists_readings tree paths, fun documents stop h => ⟨h.nodup,
    separate_or_firstRepeated documents, run_loadOnto_separate h [], ?_⟩⟩
  rintro name ⟨earlier, front, rule, back, later, rfl, hs, hfront, hname⟩
  exact run_loadOnto_repeated [] earlier h hs hfront hname

/-- A document with a rule for line ends and one for quotes. -/
def layoutText : String :=
  "\x7b\"semi\": \x7b\"meta\": \x7b\x7d\x7d, \"quotes\": \x7b\"meta\": \x7b\x7d\x7d\x7d"

/-- A document with a rule for names and another rule for quotes. -/
def namingText : String :=
  "\x7b\"camelcase\": \x7b\"meta\": \x7b\x7d\x7d, \"quotes\": \x7b\"meta\": \x7b"
    ++ "\"schema\": [\x7b\"type\": \"string\"\x7d]\x7d\x7d\x7d"

/-- The rules of the first document. -/
def layoutRules : Rules := [("semi", {}), ("quotes", {})]

/-- The rules of the second document. -/
def namingRules : Rules :=
  [("camelcase", {}), ("quotes", { schema := .sequence [.object [("type", .string "string")]] })]

/-- A tree with both documents. -/
def twoDocuments : FileTree where
  entries := [(["layout.json"], .file (.text layoutText)),
    (["naming.json"], .file (.text namingText))]

/-- Both documents are there, and a third one is not. -/
theorem readings_twoDocuments {paths : List String} {stop : Option Error}
    (h : Readings twoDocuments paths documents stop) :
    Readings twoDocuments ("layout.json" :: "naming.json" :: paths)
      (layoutRules :: namingRules :: documents) stop := by
  have hlayout : twoDocuments.follow "layout.json" =
      .ok (.file ["layout.json"] (.text layoutText)) :=
    FileTree.follow_eq_ok_iff.2 ⟨⟨by simp, by decide, by decide⟩, by decide +kernel⟩
  have hnaming : twoDocuments.follow "naming.json" =
      .ok (.file ["naming.json"] (.text namingText)) :=
    FileTree.follow_eq_ok_iff.2 ⟨⟨by simp, by decide, by decide⟩, by decide +kernel⟩
  exact .cons (FileTree.read_of_follow hlayout (by decide +kernel)) (by decide +kernel)
    (.cons (FileTree.read_of_follow hnaming (by decide +kernel)) (by decide +kernel) h)

/-- The name in both documents is found before the missing one is. -/
theorem loadAll_outcome_twoDocuments :
    run (loadAll ["layout.json", "naming.json", "missing.json"]) twoDocuments =
      (.error (.duplicateRule "quotes"), twoDocuments) := by
  have hmissing : twoDocuments.read "missing.json" = .error .notFound := by
    have hfollow : twoDocuments.follow "missing.json" = .ok (.vacant ["missing.json"]) :=
      FileTree.follow_eq_ok_iff.2 ⟨⟨by simp, by decide, by decide⟩, by decide +kernel⟩
    rw [FileTree.read, hfollow]
    rfl
  have h := readings_twoDocuments (.unreadable [] hmissing)
  exact ((loadAll_outcome twoDocuments _).2 _ _ h).2.2.2 "quotes"
    ⟨[layoutRules], [("camelcase", {})], _, [], [], rfl, List.pairwise_singleton _ _,
      by simp [names, Named, layoutRules], by simp [names, Named, layoutRules]⟩

end Rules

end LintTypes
