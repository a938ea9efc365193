import Mathlib.Data.List.Forall2
import OrderDesk.Proofs.Grammar

/-! What is written is of the grammar. Every writer spells the value that it is given, with no blank
between the tokens and no control character inside them. -/

namespace OrderDesk.Json

theorem isHexDigit_hexDigit : ∀ value < 16, IsHexDigit (hexDigit value) value := by
  unfold IsHexDigit
  decide

theorem isEscape_hexDigit {code : Nat} (small : code < 0x20) :
    IsEscape ['\\', 'u', '0', '0', hexDigit (code / 16), hexDigit (code % 16)] code := by
  have zero : IsHexDigit '0' 0 := .inl rfl
  have escape := IsEscape.mk zero zero (isHexDigit_hexDigit (code / 16) (by omega))
    (isHexDigit_hexDigit (code % 16) (by omega))
  rwa [show 0 * 4096 + 0 * 256 + code / 16 * 16 + code % 16 = code by omega] at escape

theorem spellsText_escapeChar (char : Char) {written meant : List Char}
    (others : SpellsText written meant) :
    SpellsText (escapeChar char ++ written) (char :: meant) := by
  unfold escapeChar
  split
  · exact .short (by decide) others
  · exact .short (by decide) others
  · exact .short (by decide) others
  · exact .short (by decide) others
  · exact .short (by decide) others
  · exact .short (by decide) others
  · exact .short (by decide) others
  · rename_i notQuote notBackslash _ _ _ _ _
    split
    · rename_i control
      have spelled := SpellsText.numeric (isEscape_hexDigit control) (.inl (by omega)) others
      rwa [Char.ofNat_toNat] at spelled
    · rename_i notControl
      exact .plain notQuote notBackslash (Nat.not_lt.mp notControl) others

theorem spellsText_flatMap (meant : List Char) : SpellsText (meant.flatMap escapeChar) meant := by
  induction meant with
  | nil => exact .nil
  | cons char meant ih => exact spellsText_escapeChar char ih

theorem spells_literal (text : String) : Spells (literal text) (.text text) := by
  have spelled := Spells.text (spellsText_flatMap text.toList)
  rwa [String.ofList_toList] at spelled

theorem exists_toDigits {number : Nat} (positive : number ≠ 0) :
    ∃ first rest, Nat.toDigits 10 number = first :: rest ∧ first ≠ '0' := by
  induction number using Nat.strongRecOn with
  | ind number ih =>
      rw [Nat.toDigits_eq_if (by decide)]
      split
      · rename_i single
        have digits : ∀ digit < 10, digit ≠ 0 → Nat.digitChar digit ≠ '0' := by decide
        exact ⟨_, [], rfl, digits number single positive⟩
      · obtain ⟨first, rest, front, notZero⟩ := ih (number / 10) (by omega) (by omega)
        exact ⟨first, _, by rw [front]; rfl, notZero⟩

theorem spellsNatural_naturalText (number : Nat) : SpellsNatural (naturalText number) number := by
  by_cases isZero : number = 0
  · subst isZero
    exact .zero
  · obtain ⟨first, rest, digits, notZero⟩ := exists_toDigits isZero
    have digit : ∀ char ∈ first :: rest, char.isDigit = true := fun char member =>
      Nat.isDigit_of_mem_toDigits (by decide) (by decide) (digits ▸ member)
    obtain ⟨isDigit, all⟩ := List.forall_mem_cons.mp digit
    have spelled := SpellsNatural.positive isDigit notZero all
    rwa [← digits, Nat.ofDigitChars_ten_toDigits] at spelled

theorem spells_naturalText (number : Nat) : Spells (naturalText number) (.integer false number) :=
  .integer false (spellsNatural_naturalText number)

theorem spells_integerText (integer : Int) :
    Spells (integerText integer) (.integer (integer < 0) integer.natAbs) := by
  have natural := spellsNatural_naturalText integer.natAbs
  by_cases negative : integer < 0
  · simp only [integerText, negative, if_true]
    exact .integer true natural
  · simp only [integerText, negative, if_false]
    exact .integer false natural

theorem separated_joined {α : Type} {spells : List Char → α → Prop} {parts : List (List Char)}
    {items : List α} (spelled : List.Forall₂ spells parts items) (nonempty : items ≠ []) :
    Separated spells (joined parts) items := by
  have blank : IsBlank [] := nofun
  induction spelled with
  | nil => exact absurd rfl nonempty
  | @cons part item parts items first others ih =>
      cases others with
      | nil => simpa [joined] using Separated.last blank first blank
      | cons second others =>
          simpa [joined] using Separated.more blank first blank (ih (by simp))

theorem spells_listText {parts : List (List Char)} {elements : List Value}
    (spelled : List.Forall₂ Spells parts elements) : Spells (listText parts) (.list elements) := by
  cases spelled with
  | nil => exact .emptyList nofun
  | cons first others => exact .list (separated_joined (.cons first others) nofun)

theorem spellsMember {name : String} {text : List Char} {value : Value}
    (spelled : Spells text value) :
    SpellsMember Spells (literal name ++ ':' :: text) (name, value) := by
  have blank : IsBlank [] := nofun
  have member := SpellsMember.mk (spellsText_flatMap name.toList) blank blank spelled
  simpa [literal, String.ofList_toList] using member

inductive Tells : String × List Char → String × Value → Prop
  | mk (name : String) {text : List Char} {value : Value} (spelled : Spells text value) :
      Tells (name, text) (name, value)

theorem spells_objectText {written : List (String × List Char)} {members : List (String × Value)}
    (tells : List.Forall₂ Tells written members) : Spells (objectText written) (.object members) := by
  have each : List.Forall₂ (SpellsMember Spells)
      (written.map fun member => literal member.1 ++ ':' :: member.2) members := by
    rw [List.forall₂_map_left_iff]
    refine tells.imp ?_
    rintro _ _ ⟨name, spelled⟩
    exact spellsMember spelled
  cases tells with
  | nil => exact .emptyObject nofun
  | cons first others => exact .object (separated_joined each nofun)

/-! ## One line -/

def Clean (text : List Char) : Prop :=
  ∀ char ∈ text, 0x20 ≤ char.toNat

theorem clean_append {first second : List Char} :
    Clean (first ++ second) ↔ Clean first ∧ Clean second :=
  List.forall_mem_append

theorem clean_cons {char : Char} {text : List Char} :
    Clean (char :: text) ↔ 0x20 ≤ char.toNat ∧ Clean text :=
  List.forall_mem_cons

theorem Clean.not_mem {text : List Char} (clean : Clean text) {char : Char}
    (control : char.toNat < 0x20) : char ∉ text :=
  fun member => Nat.not_le.mpr control (clean char member)

theorem Clean.enclosed {inner : List Char} (clean : Clean inner) {opening closing : Char}
    (before : 0x20 ≤ opening.toNat) (after : 0x20 ≤ closing.toNat) :
    Clean (opening :: inner ++ [closing]) :=
  clean_cons.mpr ⟨before, clean_append.mpr ⟨clean, clean_cons.mpr ⟨after, nofun⟩⟩⟩

theorem clean_escapeChar (char : Char) : Clean (escapeChar char) := by
  have digits : ∀ value < 16, 0x20 ≤ (hexDigit value).toNat := by decide
  unfold escapeChar
  split
  iterate 7 exact clean_cons.mpr ⟨by decide, clean_cons.mpr ⟨by decide, nofun⟩⟩
  split
  · simp only [Clean, List.forall_mem_cons]
    exact ⟨by decide, by decide, by decide, by decide, digits _ (by omega), digits _ (by omega),
      nofun⟩
  · rename_i notControl
    exact List.forall_mem_singleton.mpr (Nat.not_lt.mp notControl)

theorem clean_literal (text : String) : Clean (literal text) := by
  refine Clean.enclosed (fun char member => ?_) (by decide) (by decide)
  obtain ⟨source, _, inside⟩ := List.mem_flatMap.mp member
  exact clean_escapeChar source char inside

theorem clean_naturalText (number : Nat) : Clean (naturalText number) := by
  intro char member
  have digit := Nat.isDigit_of_mem_toDigits (by decide) (by decide) member
  simp only [Char.isDigit, Bool.and_eq_true, decide_eq_true_eq, ge_iff_le] at digit
  have lower : 48 ≤ char.toNat := digit.1
  omega

theorem clean_integerText (integer : Int) : Clean (integerText integer) := by
  unfold integerText
  split
  · exact clean_cons.mpr ⟨by decide, clean_naturalText _⟩
  · exact clean_naturalText _

theorem clean_joined {parts : List (List Char)} (clean : ∀ part ∈ parts, Clean part) :
    Clean (joined parts) := by
  fun_induction joined parts with
  | case1 => exact nofun
  | case2 part => exact clean part (by simp)
  | case3 part parts _ ih =>
      obtain ⟨first, others⟩ := List.forall_mem_cons.mp clean
      exact clean_append.mpr ⟨first, clean_cons.mpr ⟨by decide, ih others⟩⟩

theorem clean_listText {elements : List (List Char)} (clean : ∀ element ∈ elements, Clean element) :
    Clean (listText elements) :=
  (clean_joined clean).enclosed (by decide) (by decide)

theorem clean_objectText {members : List (String × List Char)}
    (clean : ∀ member ∈ members, Clean member.2) : Clean (objectText members) := by
  refine (clean_joined ?_).enclosed (by decide) (by decide)
  intro part listed
  obtain ⟨member, given, rfl⟩ := List.mem_map.mp listed
  exact clean_append.mpr ⟨clean_literal _, clean_cons.mpr ⟨by decide, clean member given⟩⟩

end OrderDesk.Json
