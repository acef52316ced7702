import LintTypes.Proofs.ParsedForms
import LintTypes.Proofs.RoundTrip
import LintTypes.Types.Equality

/-!
# Printing what was read

Whatever declarations come out of a text, printing them and reading the text again gives the same
declarations, with numbers in normal form and operators directly inside their own kind spliced, if
the text is faithful. For declarations out of a text that comes down to three things: no object type
with members in the key of an index signature, no operator among the types that an interface
extends, and no union that is broken right behind a bar. Where one of them fails, what is printed
cannot be read.
-/

namespace LintTypes

open Source Layout

theorem Member.Readable.sound {member : Member} (h : member.Readable) : member.Sound :=
  ⟨h.1.1, fun part hp => (h.2 part hp).sound⟩

theorem Declaration.Readable.sound {declaration : Declaration} (h : declaration.Readable) :
    declaration.Sound := by
  cases declaration with
  | typeAlias _ _ _ => exact ⟨h.1, h.2.1.sound⟩
  | interface _ _ _ _ =>
    obtain ⟨hname, hparents, hmembers, -⟩ := h
    exact ⟨hname, fun type ht => (hparents type ht).sound,
      fun member hm => (hmembers member hm).sound⟩

/-- Declarations that were read are read again from their text, if it is faithful. -/
theorem Declarations.ofSource_reprint {source : String} {declarations : Declarations}
    {style : Style} (hb : style.BannerIsComment)
    (hr : Declarations.ofSource source = .ok declarations)
    (hf : ∀ declaration ∈ declarations, declaration.Faithful style) :
    Declarations.ofSource (declarations.render style) =
      .ok (declarations.map (Declaration.remains true)) := by
  have hreadable := readable_ofSource hr
  exact ofSource_faithful hb fun declaration hd => ⟨(hreadable declaration hd).sound, hf _ hd⟩

/-- A union inside a union, in an array that is too long for a narrow page. -/
def nestedAlternatives : Declarations :=
  [.interface "A" [.reference "B" []]
    [⟨.index "k" (.keyword .string), .array (.union [.literal (.string "a"),
      .union [.literal (.string "b"), .literal (.number "1.50")]]), false, false, none⟩] none]

/-- The inner union stays on one line behind its bar and joins the outer one. -/
theorem Declarations.ofSource_reprint_nestedAlternatives :
    nestedAlternatives.render { printWidth := 20 } =
        "export interface A extends B \x7b\n  [k: string]: (\n    | 'a'\n    | 'b' | 1.5\n  )[]\n\x7d\n" ∧
      Declarations.ofSource (nestedAlternatives.render { printWidth := 20 }) =
        .ok [.interface "A" [.reference "B" []]
          [⟨.index "k" (.keyword .string), .array (.union [.literal (.string "a"),
            .literal (.string "b"), .literal (.number "1.5")]), false, false, none⟩] none] := by
  have hread : Declarations.ofSource
      "interface A extends B \x7b [k: string]: ('a' | ('b' | 1.50))[] \x7d" =
        .ok nestedAlternatives := by decide +kernel
  have hbanner : Style.BannerIsComment { printWidth := 20 } := Style.bannerIsComment_of_empty rfl
  refine ⟨by decide +kernel, (ofSource_reprint hbanner hread ?_).trans (by decide +kernel)⟩
  intro declaration hd
  obtain rfl := List.mem_singleton.1 hd
  refine ⟨List.forall_mem_singleton.2 ⟨rfl, .reference (by simp)⟩, .object ?_ ?_⟩
  · refine List.forall_mem_singleton.2 fun param type hk => ?_
    cases hk
    rfl
  · refine List.forall_mem_singleton.2 (.unionElement ?_ ?_)
    · refine List.forall_mem_cons.2 ⟨.literal _, List.forall_mem_singleton.2 (.bars rfl ?_ ?_)⟩
      · exact List.forall_mem_cons.2 ⟨.literal _, List.forall_mem_singleton.2 (.literal _)⟩
      · exact List.forall_mem_cons.2 ⟨id, List.forall_mem_singleton.2 id⟩
    · refine List.forall_mem_cons.2 ⟨id, List.forall_mem_singleton.2 ?_⟩
      rintro ⟨-, hfit⟩
      exact absurd hfit (by decide +kernel)

/-- An object type with one member. -/
def filledObject : TypeExpr := .object [⟨.named "a", .keyword .string, false, false, none⟩]

/-- Declarations that are read but cannot be read from what is printed for them: the key of an index
signature is lost, the parentheses of an extended union are, and a bar stands right behind a bar. -/
theorem Declarations.ofSource_reprint_unfaithful :
    (∃ declarations,
      Declarations.ofSource "interface A \x7b [k: \x7ba: string\x7d]: number \x7d" =
        .ok declarations ∧
      (Declarations.ofSource (declarations.render {})).isOk = false) ∧
    (∃ declarations,
      Declarations.ofSource "interface A extends (B | C) \x7b\x7d" = .ok declarations ∧
      (Declarations.ofSource (declarations.render {})).isOk = false) ∧
    (∃ declarations,
      Declarations.ofSource "type A = (\x7ba: string\x7d | 1) | 'c'" = .ok declarations ∧
      (Declarations.ofSource (declarations.render {})).isOk = false) := by
  refine ⟨⟨[.interface "A" [] [⟨.index "k" filledObject, .keyword .number, false, false, none⟩]
      none], by decide +kernel, ?_⟩,
    ⟨[.interface "A" [.union [.reference "B" [], .reference "C" []]] [] none],
      by decide +kernel, ?_⟩,
    ⟨[.typeAlias "A" (.union [.union [filledObject, .literal (.number "1")],
      .literal (.string "c")]) none], by decide +kernel, ?_⟩⟩
  · decide +kernel
  · decide +kernel
  · decide +kernel

end LintTypes
