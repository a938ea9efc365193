import OrderDesk.Handler

/-! What is wrapped around a failure does not change what it means. A layer is a note, or a problem from
elsewhere that names the failure as its source, bare or in a box. However many layers there are, they
only put links in front of the chain of the failure, and none of these links has a tag or is a
cancellation. So whatever is decided by the first link that has one is decided as before. -/

namespace OrderDesk

open Schedule

def Failure.source : Failure → Problem
  | .cancelled cause => .cancelled cause
  | .classified _ source => source
  | .within _ inner => .boxed inner
  | .other source => source

namespace Problem

def source? : Problem → Option Problem
  | .ioOf inner => inner.source?
  | .taggable _ _ source => source
  | .step failure => some failure.source
  | .boxed failure => some failure.source
  | .wrapped _ source => source
  | .plain _ | .io _ | .cancelled _ | .order _ | .crash _ => none

def linksFrom : Option Problem → List Problem
  | none => []
  | some source => source :: source.links

end Problem

theorem Failure.links_eq (failure : Failure) :
    failure.links = failure.source :: failure.source.links := by
  cases failure <;> rfl

namespace Problem

theorem links_eq (problem : Problem) : problem.links = linksFrom problem.source? := by
  fun_induction source? problem with
  | case1 inner ih => exact ih
  | case2 tag message source => cases source <;> rfl
  | case3 failure => exact failure.links_eq
  | case4 failure => exact failure.links_eq
  | case5 message source => cases source <;> rfl
  | _ => rfl

theorem source?_unboxed (problem : Problem) : problem.unboxed.source? = problem.source? := by
  cases problem <;> rfl

theorem getElem?_links (problem : Problem) (place : Nat) :
    problem.links[place]? = ((problem :: problem.links)[place]?).bind source? := by
  induction place generalizing problem with
  | zero =>
      rw [links_eq]
      cases found : problem.source? with
      | none => simp [linksFrom, found]
      | some source => simp [linksFrom, found]
  | succ place ih =>
      rw [List.getElem?_cons_succ, links_eq]
      cases problem.source? with
      | none => rfl
      | some source => exact ih source

/-- A problem of a kind that comes from elsewhere: no failure, in a box or not, and no cancellation. -/
def IsForeign : Problem → Prop
  | .step _ | .boxed _ | .cancelled _ => False
  | _ => True

theorem IsForeign.plain {problem : Problem} (foreign : problem.IsForeign) :
    problem.unboxed = problem ∧ problem.tag? = none ∧ problem.cause? = none := by
  cases problem with
  | step _ | boxed _ | cancelled _ => exact foreign.elim
  | _ => exact ⟨rfl, rfl, rfl⟩

/-- The problem names the failure as its source, as it is or in a box. -/
def Covers (problem : Problem) (failure : Failure) : Prop :=
  problem.source? = some (.step failure) ∨ problem.source? = some (.boxed failure)

theorem tag?_eq_some {problem : Problem} {tag : String} :
    problem.tag? = some tag ↔ ∃ source, problem = .step (.classified tag source) := by
  constructor
  · intro tagged
    unfold tag? at tagged
    split at tagged
    · rename_i other source
      obtain rfl := Option.some.inj tagged
      exact ⟨source, rfl⟩
    · cases tagged
  · rintro ⟨source, rfl⟩
    rfl

end Problem

/-! ## Layers -/

inductive Layer where
  | note (note : String)
  | foreign (problem : Problem)

namespace Failure

/-- A failure in layers, the outermost first. -/
inductive Wraps (core : Failure) : List Layer → Failure → Prop
  | bare : Wraps core [] core
  | note {layers inner} (note : String) (others : Wraps core layers inner) :
      Wraps core (.note note :: layers) (.within note inner)
  | foreign {layers inner problem} (elsewhere : problem.IsForeign) (covers : problem.Covers inner)
      (others : Wraps core layers inner) : Wraps core (.foreign problem :: layers) (.other problem)

theorem chain_within (note : String) (inner : Failure) :
    (within note inner).chain = .step (.within note inner) :: inner.chain := rfl

theorem chain_other {problem : Problem} {inner : Failure} (elsewhere : problem.IsForeign)
    (covers : problem.Covers inner) :
    (other problem).chain = .step (.other problem) :: problem :: inner.chain := by
  have beneath : problem.links.map Problem.unboxed = inner.chain := by
    rw [problem.links_eq]
    rcases covers with bare | boxed
    · rw [bare]
      rfl
    · rw [boxed]
      rfl
  rw [chain, links, List.map_cons, List.map_cons, beneath, elsewhere.plain.1]
  rfl

/-- The chain begins with the failure, and every further link is the source of the one before it. -/
theorem getElem?_chain (failure : Failure) :
    failure.chain[0]? = some (.step failure) ∧
      ∀ place, failure.chain[place + 1]? =
        (failure.chain[place]?.bind Problem.source?).map Problem.unboxed := by
  refine ⟨rfl, fun place => ?_⟩
  have next := (Problem.step failure).getElem?_links place
  rw [Problem.links] at next
  rw [chain, List.getElem?_map, List.getElem?_map, List.getElem?_cons_succ, next]
  simp only [Option.bind_map, Function.comp_def, Problem.source?_unboxed]

theorem kind_eq_some {failure : Failure} {tag : String} :
    failure.kind = some tag ↔ ∃ before source after,
      failure.chain = before ++ .step (.classified tag source) :: after ∧
        ∀ link ∈ before, link.tag? = none := by
  rw [kind, List.findSome?_eq_some_iff]
  constructor
  · rintro ⟨before, link, after, split, tagged, untagged⟩
    obtain ⟨source, rfl⟩ := Problem.tag?_eq_some.mp tagged
    exact ⟨before, source, after, split, untagged⟩
  · rintro ⟨before, source, after, split, untagged⟩
    exact ⟨before, _, after, split, rfl, untagged⟩

variable {core outer : Failure} {layers : List Layer}

/-- Layers put links in front of the chain, none of which decides anything. -/
theorem Wraps.exists_front (wraps : core.Wraps layers outer) :
    ∃ front, outer.chain = front ++ core.chain ∧
      ∀ link ∈ front, link.tag? = none ∧ link.cause? = none := by
  induction wraps with
  | bare => exact ⟨[], rfl, nofun⟩
  | @note _ inner note _ ih =>
      obtain ⟨front, split, plain⟩ := ih
      refine ⟨.step (.within note inner) :: front, ?_, List.forall_mem_cons.mpr ⟨⟨rfl, rfl⟩, plain⟩⟩
      rw [chain_within, split, List.cons_append]
  | @foreign _ inner problem elsewhere covers _ ih =>
      obtain ⟨front, split, plain⟩ := ih
      refine ⟨.step (.other problem) :: problem :: front, ?_, ?_⟩
      · rw [chain_other elsewhere covers, split, List.cons_append, List.cons_append]
      · exact List.forall_mem_cons.mpr ⟨⟨rfl, rfl⟩,
          List.forall_mem_cons.mpr ⟨elsewhere.plain.2, plain⟩⟩

theorem Wraps.kind_eq (wraps : core.Wraps layers outer) : outer.kind = core.kind := by
  obtain ⟨front, split, plain⟩ := wraps.exists_front
  have none_in_front : front.findSome? Problem.tag? = none :=
    List.findSome?_eq_none_iff.mpr fun link member => (plain link member).1
  rw [kind, split, List.findSome?_append, none_in_front, Option.none_or, kind]

theorem Wraps.cancellation_eq (wraps : core.Wraps layers outer) :
    outer.cancellation = core.cancellation := by
  obtain ⟨front, split, plain⟩ := wraps.exists_front
  have none_in_front : front.findSome? Problem.cause? = none :=
    List.findSome?_eq_none_iff.mpr fun link member => (plain link member).2
  rw [cancellation, split, List.findSome?_append, none_in_front, Option.none_or, cancellation]

theorem Wraps.wireKind_eq (wraps : core.Wraps layers outer) : outer.wireKind = core.wireKind := by
  rw [wireKind, wireKind, wraps.kind_eq, wraps.cancellation_eq]

theorem Wraps.classify_eq (wraps : core.Wraps layers outer) (name : String) (millis : Nat) :
    classify name millis (some outer) = classify name millis (some core) := by
  have same : outer.isCancellation = core.isCancellation := by
    rw [isCancellation, isCancellation, wraps.cancellation_eq]
  simp only [classify, same, wraps.kind_eq]

theorem Wraps.message_eq {notes : List String} (wraps : core.Wraps (notes.map .note) outer) :
    outer.message = String.intercalate ": " (notes ++ [core.message]) := by
  induction notes generalizing outer with
  | nil =>
      cases wraps
      rw [List.nil_append, String.intercalate_singleton]
  | cons note notes ih =>
      cases wraps with
      | note _ others =>
          rw [List.cons_append, String.intercalate_cons_of_ne_nil (by simp), ← ih others]
          rfl

/-- However a failure is wrapped, its tag, its cancellation, its wire classification, its status code
and the report of its step are those of the failure itself. Notes alone are read one after another in
front of what the failure says. The chain goes from the outermost link to the source of each, and the
first failure with a tag on it, if there is one, gives the tag. -/
theorem layers_change_nothing (wraps : core.Wraps layers outer) :
    outer.kind = core.kind ∧ outer.cancellation = core.cancellation ∧
      outer.wireKind = core.wireKind ∧ statusFor (some outer) = statusFor (some core) ∧
      (∀ name millis, classify name millis (some outer) = classify name millis (some core)) ∧
      (∀ notes : List String, layers = notes.map .note →
        outer.message = String.intercalate ": " (notes ++ [core.message])) ∧
      (outer.chain[0]? = some (.step outer) ∧
        ∀ place, outer.chain[place + 1]? =
          (outer.chain[place]?.bind Problem.source?).map Problem.unboxed) ∧
      ∀ tag, outer.kind = some tag ↔ ∃ before source after,
        outer.chain = before ++ .step (.classified tag source) :: after ∧
          ∀ link ∈ before, ∀ other beneath, link ≠ .step (.classified other beneath) := by
  refine ⟨wraps.kind_eq, wraps.cancellation_eq, wraps.wireKind_eq, ?_, wraps.classify_eq,
    fun notes same => (same ▸ wraps).message_eq, outer.getElem?_chain, fun tag => ?_⟩
  · rw [statusFor, statusFor, wraps.wireKind_eq]
  · have untagged (link : Problem) :
        link.tag? = none ↔ ∀ other beneath, link ≠ .step (.classified other beneath) := by
      rw [Option.eq_none_iff_forall_ne_some]
      simp only [ne_eq, Problem.tag?_eq_some, not_exists]
    simp only [kind_eq_some, untagged]

/-- A tag, with another tag further down. -/
def refused : Failure :=
  .classified "declined" (.wrapped "no refund"
    (some (.step (.classified "vendor_unavailable" (.plain "closed")))))

/-- The failure behind a box, which comes with an error of input or output, behind a problem whose own
tag was never made to count. -/
def passedOn : Problem :=
  .taggable "timeout" "gateway" (some (.step (.other (.ioOf (.wrapped "till" (some (.boxed refused)))))))

theorem layers_change_nothing_mixed :
    refused.Wraps [.note "payment", .foreign passedOn,
        .foreign (.ioOf (.wrapped "till" (some (.boxed refused))))]
        (.within "payment" (.other passedOn)) ∧
      (within "payment" (.other passedOn)).wireKind = "declined" ∧
      statusFor (some (.within "payment" (.other passedOn))) = 500 ∧
      classify "payment" 5 (some (.within "payment" (.other passedOn))) =
        ⟨"payment", .error, .ofMillis 5, "declined"⟩ ∧
      (within "payment" (.within "card" refused)).message = "payment: card: no refund" := by
  have wraps : refused.Wraps [.note "payment", .foreign passedOn,
      .foreign (.ioOf (.wrapped "till" (some (.boxed refused))))]
      (.within "payment" (.other passedOn)) :=
    .note _ (.foreign trivial (.inl rfl) (.foreign trivial (.inr rfl) .bare))
  have noted : refused.Wraps (["payment", "card"].map .note)
      (.within "payment" (.within "card" refused)) := .note _ (.note _ .bare)
  obtain ⟨_, _, wire, status, report, _⟩ := layers_change_nothing wraps
  obtain ⟨_, _, _, _, _, message, _⟩ := layers_change_nothing noted
  refine ⟨wraps, wire.trans ?_, status.trans ?_, (report "payment" 5).trans ?_,
    (message _ rfl).trans ?_⟩
  · rfl
  · rfl
  · rfl
  · rfl

end Failure

end OrderDesk
