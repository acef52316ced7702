import LintTypes.Proofs.BundleRuns

/-!
# Paths of rules' files

A rule may have any name, and its name is a part of the path of its file. It cannot lead anywhere
else: the slashes of the name become underscores, and all other characters stay where they are, but
for the case of those behind a slash. With its ending the name of the file is a single one that
leads somewhere, so the file stands right in the folder of the rules' files, whatever that folder
is.
-/

namespace LintTypes

/-! ## Flattened names -/

namespace Names

/-- What is written for a character, given the character in front of it, if there is one. -/
def rewritten (recase : Char → Char) (before : Option Char) (c : Char) : Char :=
  if c = '/' then '_' else if before = some '/' ∧ isWordChar c = true then recase c else c

section Flattened

variable (recase : Char → Char)

theorem ne_slash_of_isWordChar {c : Char} (h : isWordChar c = true) : c ≠ '/' := by
  rintro rfl
  exact absurd h (by decide)

theorem recase_ne_slash {c : Char} (h : isWordChar c = true) : c.toLower ≠ '/' ∧ c.toUpper ≠ '/' :=
  holds_of_isNameChar (P := fun c => isWordChar c = true → c.toLower ≠ '/' ∧ c.toUpper ≠ '/')
    (by decide +kernel) (isNameChar_of_isWordChar h) h

theorem flattenSlashes_eq_zipWith (text : List Char) (before : Option Char)
    (hb : before ≠ some '/') :
    flattenSlashes recase text =
      List.zipWith (rewritten recase) (before :: text.map some) text := by
  induction text using flattenSlashes.induct generalizing before with
  | case1 c rest hword ih =>
    have hc := ne_slash_of_isWordChar hword
    rw [flattenSlashes, if_pos hword, ih (some c) (by simpa using hc)]
    simp [rewritten, hc, hword]
  | case2 c rest hword ih =>
    rw [flattenSlashes, if_neg hword, ih none (by simp)]
    simp [rewritten, hword]
  | case3 => rfl
  | case4 c rest hslash hlast ih =>
    have hc : c ≠ '/' := by
      rintro rfl
      cases rest with
      | nil => exact hlast rfl rfl
      | cons d others => exact hslash d others rfl rfl
    rw [flattenSlashes_cons recase hc, ih (some c) (by simpa using hc)]
    simp [rewritten, hc, hb]
  | case5 => rfl

/-- Each character is rewritten by itself, in its place. -/
theorem getElem?_flattenSlashes (text : List Char) (i : Nat) :
    (flattenSlashes recase text)[i]? =
      text[i]?.map (rewritten recase (if i = 0 then none else text[i - 1]?)) := by
  rw [flattenSlashes_eq_zipWith recase text none (by simp), List.getElem?_zipWith]
  cases i with
  | zero => cases text <;> rfl
  | succ i =>
    rw [List.getElem?_cons_succ, List.getElem?_map, if_neg (Nat.succ_ne_zero i),
      Nat.add_sub_cancel]
    cases hnext : text[i + 1]? with
    | none => split <;> simp_all
    | some c =>
      have hlt : i < text.length := Nat.lt_of_succ_lt (List.getElem?_eq_some_iff.1 hnext).1
      rw [List.getElem?_eq_getElem hlt]
      rfl

theorem flattenSlashes_of_not_mem {text : List Char} (h : '/' ∉ text) :
    flattenSlashes recase text = text := by
  induction text with
  | nil => rfl
  | cons c text ih =>
    obtain ⟨hc, htext⟩ := not_or.1 (List.mem_cons.not.1 h)
    rw [flattenSlashes_cons recase (Ne.symm hc), ih htext]

end Flattened

end Names

/-! ## Paths of entries -/

namespace Path

open FileTree (IsEntryName pieces_append pieces_of_single pieces_ne_nil join_entry endsWith_join)

theorem split_append {path : List Char} (h : path ≠ []) (more : List Char) :
    split (path ++ '/' :: more) = ((split path).1, (split path).2 ++ '/' :: more) := by
  fun_cases split path with
  | case1 | case2 | case3 => rfl
  | case4 _ hroot hhere hdot =>
    obtain ⟨c, rest, rfl⟩ := List.exists_cons_of_ne_nil h
    rw [split.eq_4]
    · rintro tail ⟨⟩
      exact hroot rest rfl
    · intro hend
      simp at hend
    · rintro tail htail
      cases rest with
      | nil =>
        cases htail
        exact hhere rfl
      | cons d rest =>
        cases htail
        exact hdot rest rfl

theorem split_text (path : List Char) : (split path).1.text ++ (split path).2 = path := by
  fun_cases split path <;> rfl

theorem split_of_single {name : List Char} (hs : '/' ∉ name) (hd : name ≠ ['.']) :
    split name = (.plain, name) := by
  rw [split.eq_4]
  · rintro tail rfl
    exact hs (List.mem_cons_self ..)
  · exact hd
  · rintro tail rfl
    simp at hs

theorem isIdle_entry {name : String} (h : IsEntryName name) : isIdle name.toList = false := by
  have hempty : name.toList ≠ [] := by simpa using h.ne_empty
  have hhere : name.toList ≠ ['.'] := fun heq => h.ne_here (String.toList_inj.1 heq)
  simp [isIdle, hempty, hhere]

/-- An entry of a folder is the last piece of its path, behind those of the folder's path. -/
theorem split_join (base : String) {name : String} (h : IsEntryName name) :
    ∃ front, (split (join base name).toList).1 = (split base.toList).1 ∧
      pieces (split (join base name).toList).2 = front ++ [name.toList] ∧
      front.filter (!isIdle ·) = (pieces (split base.toList).2).filter (!isIdle ·) := by
  have hsingle := pieces_of_single h.single
  have hplain := split_of_single h.single fun heq => h.ne_here (String.toList_inj.1 heq)
  rcases join_entry base h with ⟨heq, rfl⟩ | ⟨before, hbase, heq⟩ | ⟨hne, heq⟩
  · exact ⟨[], by rw [heq, hplain]; rfl, by rw [heq, hplain, hsingle]; rfl, rfl⟩
  · rw [heq, String.toList_append, hbase, List.append_assoc, List.singleton_append]
    by_cases hempty : before = []
    · subst hempty
      exact ⟨[], rfl, hsingle, rfl⟩
    · rw [split_append hempty, split_append hempty]
      refine ⟨pieces (split before).2, rfl, by rw [pieces_append, hsingle], ?_⟩
      rw [pieces_append, List.filter_append]
      simp [pieces, isIdle]
  · have hbase : base.toList ≠ [] := by simpa using hne
    rw [heq, String.toList_append, String.toList_append, List.append_assoc]
    show ∃ front, (split (base.toList ++ '/' :: name.toList)).1 = _ ∧
      pieces (split (base.toList ++ '/' :: name.toList)).2 = _ ∧ _
    rw [split_append hbase]
    exact ⟨pieces (split base.toList).2, rfl, by rw [pieces_append, hsingle], rfl⟩

/-- The components of the path of an entry. -/
theorem components_join (base : String) {name : String} (h : IsEntryName name) :
    components (join base name) = components base ++ [.name name] := by
  obtain ⟨front, hstart, hpieces, hfront⟩ := split_join base h
  have habove : name.toList ≠ ['.', '.'] := fun heq => h.ne_above (String.toList_inj.1 heq)
  unfold components
  dsimp only
  rw [hstart, hpieces, List.filter_append, hfront]
  simp [isIdle_entry h, habove]

theorem intercalate_pieces (text : List Char) : ['/'].intercalate (pieces text) = text := by
  induction text with
  | nil => rfl
  | cons c text ih =>
    obtain ⟨piece, others, hpieces⟩ := List.exists_cons_of_ne_nil (pieces_ne_nil text)
    rw [pieces]
    split
    · rename_i hc
      rw [hpieces] at ih ⊢
      rw [List.intercalate_cons_cons, ih, hc]
      rfl
    · rw [hpieces] at ih ⊢
      cases others with
      | nil => simp_all
      | cons other others =>
        rw [List.intercalate_cons_cons] at ih ⊢
        rw [← ih]
        rfl

/-- The path above that of an entry of an entry is the path of the latter. -/
theorem parent?_join (base : String) {folder name : String} (hf : IsEntryName folder)
    (h : IsEntryName name) : parent? (join (join base folder) name) = some (join base folder) := by
  obtain ⟨front, -, hpieces, -⟩ := split_join base hf
  have hend := endsWith_join base hf
  generalize join base folder = path at hpieces hend ⊢
  -- The path of the folder ends with its name, so it is not empty.
  have hne : path.toList ≠ [] := by
    intro hnil
    rw [hnil] at hpieces
    have hlast : [] ++ [[]] = front ++ [folder.toList] := hpieces
    have hempty : [[]] = [folder.toList] := List.append_inj_right' hlast rfl
    exact hf.ne_empty (String.toList_inj.1 (List.cons.inj hempty).1.symm)
  have hjoin : (join path name).toList = path.toList ++ '/' :: name.toList := by
    rcases join_entry path h with ⟨-, rfl⟩ | ⟨before, hpath, -⟩ | ⟨-, heq⟩
    · exact absurd rfl hne
    · rw [String.endsWith_eq_endsWith_toSlice, String.Slice.endsWith_string_eq_false_iff] at hend
      exact absurd ⟨before, by simpa using hpath.symm⟩ hend
    · rw [heq, String.toList_append, String.toList_append, List.append_assoc]
      rfl
  have hsingle := pieces_of_single h.single
  rw [parent?, ancestors]
  dsimp only
  rw [hjoin, split_append hne]
  dsimp only
  rw [pieces_append, hsingle, List.reverse_append, List.reverse_singleton, List.singleton_append,
    piecesAbove, if_neg (by simp [isIdle_entry h]), hpieces, List.reverse_append,
    List.reverse_singleton, List.singleton_append,
    List.dropWhile_cons_of_neg (by simp [isIdle_entry hf]),
    List.map_cons, List.cons_append, List.head?_cons, List.reverse_cons, List.reverse_reverse,
    ← hpieces, intercalate_pieces, split_text, String.ofList_toList]

end Path

/-! ## Files in the folder -/

namespace Bundle

open FileTree

variable {dist : String} {tree tree' : FileTree} {file : DeclarationFile}

theorem isEntryName_rules : IsEntryName "rules" := ⟨by decide, by decide, by decide, by decide⟩

theorem components_rulePath (dist : String) (h : '/' ∉ file.file.toList) :
    Path.components (rulePath dist file) =
      Path.components dist ++ [.name "rules", .name (file.file ++ ".d.ts")] := by
  rw [rulePath, Path.components_join _ (isEntryName_file h), rulesFolder,
    Path.components_join _ isEntryName_rules, List.append_assoc]
  rfl

/-- The file of a rule is not where the index is. -/
theorem rulePath_ne_indexPath (h : '/' ∉ file.file.toList) :
    rulePath dist file ≠ indexPath dist := by
  intro heq
  have hcomponents := congrArg (fun path => (Path.components path).length) heq
  simp [components_rulePath dist h, indexPath,
    Path.components_join _ isEntryName_index] at hcomponents

/-- Whatever comes of writing a bundle, besides folders only the rules' files and the index are
changed. -/
theorem changed_write_bundle {bundle : Bundle} {result : Except Error Placement}
    (hrun : run (bundle.write dist) tree = (result, tree')) :
    Changed (tree.PlacesOf (folders dist))
      (tree.PlacesOf (indexPath dist :: bundle.files.map (rulePath dist))) tree tree' := by
  have houtcome := writeOutcome bundle dist tree
  rw [hrun] at houtcome
  cases result with
  | ok placement => exact houtcome.done_changed.2
  | error error =>
    refine houtcome.changed_of_error.mono (fun _ h => h) ?_
    rintro place ⟨path, hpath, rfl⟩
    exact ⟨path, List.mem_cons_of_mem _ hpath, rfl⟩

/-- When a bundle was written, its rules' files are named in the order of the rules. -/
theorem ruleFiles_of_write {bundle : Bundle} {placement : Placement}
    (hrun : run (bundle.write dist) tree = (.ok placement, tree')) :
    placement.ruleFiles = bundle.files.map (rulePath dist) := by
  have houtcome := writeOutcome bundle dist tree
  rw [hrun] at houtcome
  cases houtcome with
  | done => rfl

/-- The names of rules and what they are made into. Flattening a name leaves no slash, so doing it
once more changes nothing; and each character is rewritten in its place, where only slashes and the
word characters behind them do not stay as they are. So whatever a rule is called, the path of its
file leads to an entry of the folder of the rules' files, and not to the index. And however writing
a bundle ends, apart from folders and the index nothing but such entries is changed. -/
theorem write_inFolder :
    (∀ recase ∈ [Char.toLower, Char.toUpper], ∀ name : List Char,
      '/' ∉ Names.flattenSlashes recase name ∧
      Names.flattenSlashes recase (Names.flattenSlashes recase name) =
        Names.flattenSlashes recase name ∧
      ∀ i : Nat, (Names.flattenSlashes recase name)[i]? =
        name[i]?.map (Names.rewritten recase (if i = 0 then none else name[i - 1]?))) ∧
    (∀ (dist name : String) (file : DeclarationFile), file.file = Names.fileName name →
      Path.parent? (rulePath dist file) = some (rulesFolder dist) ∧
      Path.components (rulePath dist file) =
        Path.components dist ++ [.name "rules", .name (Names.fileName name ++ ".d.ts")] ∧
      rulePath dist file ≠ indexPath dist ∧
      ∀ tree : FileTree,
        tree.locationOf (rulePath dist file) =
          (Names.fileName name ++ ".d.ts") :: tree.locationOf (rulesFolder dist) ∧
        tree.locationOf (rulePath dist file) ≠ tree.locationOf (indexPath dist)) ∧
    ∀ declarer options rules bundle, ofRules declarer options rules = .ok bundle →
      ∀ dist tree result tree', run (bundle.write dist) tree = (result, tree') →
        (∀ placement, result = .ok placement →
          placement.ruleFiles = rules.map fun entry =>
            Path.join (rulesFolder dist) (Names.fileName entry.1 ++ ".d.ts")) ∧
        Changed (tree.PlacesOf (folders dist))
          (fun place => place = tree.locationOf (indexPath dist) ∨ ∃ entry ∈ rules,
            place = (Names.fileName entry.1 ++ ".d.ts") :: tree.locationOf (rulesFolder dist))
          tree tree' := by
  refine ⟨fun recase hrecase name => ?names, fun dist name file hfile => ?paths,
    fun declarer options rules bundle hbundle dist tree result tree' hrun => ?runs⟩
  case names =>
    have hslash : '/' ∉ Names.flattenSlashes recase name := by
      refine Names.not_mem_flattenSlashes recase (fun c hc => ?_) name
      rcases List.mem_cons.1 hrecase with rfl | hrecase
      · exact (Names.recase_ne_slash hc).1
      · rw [List.mem_singleton.1 hrecase]
        exact (Names.recase_ne_slash hc).2
    exact ⟨hslash, Names.flattenSlashes_of_not_mem recase hslash,
      Names.getElem?_flattenSlashes recase name⟩
  case paths =>
    have hslash : '/' ∉ file.file.toList := hfile ▸ Names.slash_not_mem_fileName name
    have hplace (tree : FileTree) : tree.locationOf (rulePath dist file) =
        (Names.fileName name ++ ".d.ts") :: tree.locationOf (rulesFolder dist) := by
      rw [rulePath, locationOf_join _ _ (isEntryName_file hslash), hfile]
    refine ⟨Path.parent?_join dist isEntryName_rules (isEntryName_file hslash), ?_,
      rulePath_ne_indexPath hslash,
      fun tree => ⟨hplace tree, (locationOf_indexPath_ne hslash).symm⟩⟩
    rw [components_rulePath dist hslash, hfile]
  case runs =>
    refine ⟨?_, (changed_write_bundle hrun).mono (fun _ h => h) ?_⟩
    · rintro placement rfl
      have hpaths : bundle.files.map (rulePath dist) = (rules.map Prod.fst).map fun name =>
          Path.join (rulesFolder dist) (Names.fileName name ++ ".d.ts") :=
        map_files_eq (fun hfile => by rw [rulePath, hfile.file_eq]) hbundle
      rw [ruleFiles_of_write hrun, hpaths, List.map_map]
      rfl
    · rintro place ⟨path, hpath, rfl⟩
      rcases List.mem_cons.1 hpath with rfl | hpath
      · exact .inl rfl
      · obtain ⟨file, hmem, rfl⟩ := List.mem_map.1 hpath
        obtain ⟨entry, hentry, hfile⟩ := (Schema.forall₂_exists (files_ofRules hbundle)).2 file hmem
        refine .inr ⟨entry, hentry, ?_⟩
        rw [rulePath, locationOf_join _ _ (isEntryName_file (slash_not_mem_file hbundle file hmem)),
          hfile.file_eq]

/-- A rule whose name climbs out of its folder. -/
theorem write_inFolder_climbingName :
    Names.flattenSlashes Char.toLower "../../Etc//X".toList = ".._.._etc__x".toList ∧
      '/' ∉ Names.flattenSlashes Char.toLower "../../Etc//X".toList ∧
      Path.parent? (rulePath "out" ⟨"../eval", ".._Eval", ".._eval", ""⟩) = some "out/rules" ∧
      ∃ bundle, ofRules .standard {} (optionless ["../eval"]) = .ok bundle ∧
        ∃ placement tree', run (bundle.write "") emptyFolder = (.ok placement, tree') ∧
          placement.ruleFiles = ["rules/.._eval.d.ts"] := by
  have hfiles : (ofRules .standard {} (optionless ["../eval"])).toOption.map Bundle.files =
      some [⟨"../eval", ".._Eval", ".._eval", "export type .._Eval = []"⟩] := by
    decide +kernel
  have hpath : rulePath "" ⟨"../eval", ".._Eval", ".._eval", "export type .._Eval = []"⟩ =
      "rules/.._eval.d.ts" := by decide +kernel
  obtain ⟨bundle, hbundle, -, placement, tree', hrun⟩ := write_optionless hfiles (by
    refine List.forall_mem_singleton.2 ?_
    rw [hpath]
    exact canHold_emptyFolder ⟨by simp, by decide, by decide⟩ [".._eval.d.ts", "rules"]
      (by decide +kernel))
  have hfolder : rulesFolder "out" = "out/rules" := by decide +kernel
  obtain ⟨hslash, -, -⟩ :=
    write_inFolder.1 Char.toLower (List.mem_cons_self ..) "../../Etc//X".toList
  obtain ⟨hparent, -, -, -⟩ := write_inFolder.2.1 "out" "../eval"
    ⟨"../eval", ".._Eval", ".._eval", ""⟩ (by decide +kernel)
  obtain ⟨hplacement, -⟩ := write_inFolder.2.2 _ _ _ _ hbundle _ _ _ _ hrun
  exact ⟨by decide +kernel, hslash, hfolder ▸ hparent, bundle, hbundle, placement, tree', hrun,
    (hplacement placement rfl).trans (by decide +kernel)⟩

end Bundle

end LintTypes
