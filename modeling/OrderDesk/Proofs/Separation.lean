import OrderDesk.Proofs.Contexts

/-! Contexts on one side, scopes of calls on the other. If contexts are only derived from contexts
and all tasks work for calls, then no context lies within the scope of a call. A call, which cancels
nothing but its own scope, and a body, which can cancel nothing else, do not touch any context: only
somebody who cancels a context ends it before its time. -/

namespace OrderDesk.Schedule

namespace State

structure Separate (state : State) : Prop where
  parts : state.Parts
  posts : ∀ post ∈ state.posts, post ∈ state.bases
  bounded : ∀ (id : ScopeId) (scope : Scope), state.scopes[id]? = some scope →
    ∀ above ∈ scope.lineage, above < state.scopes.length
  pure : ∀ (id : ScopeId) (scope : Scope), state.scopes[id]? = some scope →
    ∀ above ∈ scope.lineage, above ∈ state.bases → above = id

/-- The move keeps contexts and scopes of calls apart, and cancels contexts only. -/
def KeepsApart (state : State) : Move → Prop
  | .derive parent _ => parent ∉ state.bases
  | .cancel target => target ∉ state.bases
  | .openCall context _ => context ∉ state.bases
  | .spawn _ _ => False
  | _ => True

instance (state : State) (move : Move) : Decidable (state.KeepsApart move) :=
  match move with
  | .derive parent _ => inferInstanceAs (Decidable (parent ∉ state.bases))
  | .cancel target => inferInstanceAs (Decidable (target ∉ state.bases))
  | .openCall context _ => inferInstanceAs (Decidable (context ∉ state.bases))
  | .spawn _ _ => .isFalse id
  | .addBackground => .isTrue trivial
  | .abortCall _ => .isTrue trivial
  | .doom _ => .isTrue trivial
  | .release _ => .isTrue trivial
  | .turn _ => .isTrue trivial
  | .jump _ => .isTrue trivial

def StaysApart : State → List Move → Prop
  | _, [] => True
  | state, move :: moves => state.KeepsApart move ∧ (state.apply move).StaysApart moves

instance decidableStaysApart :
    (state : State) → (moves : List Move) → Decidable (state.StaysApart moves)
  | _, [] => .isTrue trivial
  | state, move :: moves =>
      have _ := decidableStaysApart (state.apply move) moves
      inferInstanceAs (Decidable (state.KeepsApart move ∧ (state.apply move).StaysApart moves))

theorem staysApart_append (state : State) (first second : List Move) :
    state.StaysApart (first ++ second) ↔
      state.StaysApart first ∧ (state.play first).StaysApart second := by
  induction first generalizing state with
  | nil => exact ⟨fun stays => ⟨trivial, stays⟩, And.right⟩
  | cons move moves ih =>
      simp only [List.cons_append, StaysApart, ih, play_cons, and_assoc]

variable {state : State} {move : Move}

theorem separate_start (limiter : Limiter) : (start limiter).Separate :=
  ⟨parts_start limiter, by simp [start, State.posts], by simp [start], by simp [start]⟩

theorem getElem?_concat_cases {α : Type} {items : List α} {added item : α} {index : Nat}
    (found : (items ++ [added])[index]? = some item) :
    items[index]? = some item ∨ index = items.length ∧ item = added := by
  rcases Nat.lt_or_ge index items.length with old | new
  · rw [List.getElem?_append_left old] at found
    exact .inl found
  · rw [List.getElem?_append_right new] at found
    have bound := (List.getElem?_eq_some_iff.mp found).1
    rw [List.length_singleton] at bound
    exact .inr ⟨by omega, List.mem_singleton.mp (List.mem_of_getElem? found)⟩

theorem mem_lineage_derive {scopes : Scopes} {parent : ScopeId} {deadline : Option Nat}
    {id : ScopeId} {scope : Scope} (found : (scopes.derive parent deadline)[id]? = some scope) :
    scopes[id]? = some scope ∨ id = scopes.length ∧ ∀ above ∈ scope.lineage,
      above = scopes.length ∨ ∃ outer, scopes[parent]? = some outer ∧ above ∈ outer.lineage := by
  unfold Scopes.derive at found
  split at found
  · rename_i outer above
    rcases getElem?_concat_cases found with old | ⟨same, rfl⟩
    · exact .inl old
    · refine .inr ⟨same, fun other member => ?_⟩
      rcases List.mem_cons.mp member with own | inherited
      · exact .inl own
      · exact .inr ⟨outer, above, inherited⟩
  · rcases getElem?_concat_cases found with old | ⟨same, rfl⟩
    · exact .inl old
    · exact .inr ⟨same, fun other member => .inl (List.mem_singleton.mp member)⟩

theorem posts_apply (posts : ∀ post ∈ state.posts, post ∈ state.bases)
    (apart : state.KeepsApart move) :
    ∀ post ∈ (state.apply move).posts, post ∈ (state.apply move).bases := by
  rcases sameWiring_apply state move with same | ⟨context, steps, rfl⟩ | ⟨target, script, rfl⟩
  · rw [same.posts, same.bases]
    exact posts
  · intro post member
    rw [bases_openCall]
    obtain ⟨task, there, rfl⟩ := List.mem_map.mp member
    rw [State.apply, (opened_openCall state context steps).tasks] at there
    rcases List.mem_append.mp there with old | new
    · exact List.mem_append_left _ (posts task.scope (List.mem_map_of_mem old))
    · obtain ⟨position, placed⟩ := List.getElem?_of_mem new
      rw [getElem?_stepTasks] at placed
      obtain ⟨_, _, rfl⟩ := Option.map_eq_some_iff.mp placed
      exact List.mem_append_right _ (List.mem_singleton.mpr rfl)
  · exact absurd apart id

/-- A new scope that names, besides itself, only old scopes of no call keeps all apart, even if a
call takes it for its own. -/
theorem Separate.of_added (separate : state.Separate) (apart : state.KeepsApart move)
    (bases : ∀ base ∈ (state.apply move).bases, base ∈ state.bases ∨ base = state.scopes.length)
    (longer : state.scopes.length < (state.apply move).scopes.length)
    (added : ∀ (id : ScopeId) (scope : Scope), (state.apply move).scopes[id]? = some scope →
      state.scopes[id]? = some scope ∨ id = state.scopes.length ∧ ∀ above ∈ scope.lineage,
        above = state.scopes.length ∨ above < state.scopes.length ∧ above ∉ state.bases) :
    (state.apply move).Separate := by
  refine ⟨separate.parts.apply move, posts_apply separate.posts apart, ?_, ?_⟩
  · intro id scope found above member
    rcases added id scope found with old | ⟨_, named⟩
    · exact Nat.lt_trans (separate.bounded id scope old above member) longer
    · rcases named above member with rfl | ⟨below, _⟩
      · exact longer
      · exact Nat.lt_trans below longer
  · intro id scope found above member own
    rcases added id scope found with old | ⟨rfl, named⟩
    · rcases bases above own with known | rfl
      · exact separate.pure id scope old above member known
      · exact absurd (separate.bounded id scope old _ member) (Nat.lt_irrefl _)
    · rcases named above member with same | ⟨below, outside⟩
      · exact same
      · rcases bases above own with known | rfl
        · exact absurd known outside
        · exact absurd below (Nat.lt_irrefl _)

theorem Separate.lineage_outside (separate : state.Separate) {parent : ScopeId} {outer : Scope}
    (found : state.scopes[parent]? = some outer) (outside : parent ∉ state.bases) :
    ∀ above ∈ outer.lineage, above < state.scopes.length ∧ above ∉ state.bases :=
  fun above member => ⟨separate.bounded parent outer found above member,
    fun own => outside (separate.pure parent outer found above member own ▸ own)⟩

theorem Separate.apply (separate : state.Separate) (apart : state.KeepsApart move) :
    (state.apply move).Separate := by
  have bases_same (other : ∀ context steps, move ≠ .openCall context steps) :
      (state.apply move).bases = state.bases := by
    rcases sameWiring_apply state move with same | ⟨context, steps, rfl⟩ | ⟨target, script, rfl⟩
    · exact same.bases
    · exact absurd rfl (other context steps)
    · exact absurd apart id
  have unchanged (other : ∀ context steps, move ≠ .openCall context steps)
      (lineages : ∀ (id : ScopeId) (scope : Scope), (state.apply move).scopes[id]? = some scope →
        ∃ old, state.scopes[id]? = some old ∧ scope.lineage = old.lineage) :
      (state.apply move).Separate := by
    have grows := (apply_extends state move).length_le
    refine ⟨separate.parts.apply move, posts_apply separate.posts apart, ?_, ?_⟩
    · intro id scope found above member
      obtain ⟨old, there, lineage⟩ := lineages id scope found
      exact Nat.lt_of_lt_of_le (separate.bounded id old there above (lineage ▸ member)) grows
    · intro id scope found above member own
      obtain ⟨old, there, lineage⟩ := lineages id scope found
      exact separate.pure id old there above (lineage ▸ member) (bases_same other ▸ own)
  have derived {parent : ScopeId} {deadline : Option Nat} (outside : parent ∉ state.bases)
      (added : (state.apply move).scopes = state.scopes.derive parent deadline)
      (bases : ∀ base ∈ (state.apply move).bases,
        base ∈ state.bases ∨ base = state.scopes.length) : (state.apply move).Separate := by
    refine separate.of_added apart bases ?_ fun id scope found => ?_
    · rw [added, Scopes.derive]
      split <;> simp
    · rw [added] at found
      rcases mem_lineage_derive found with old | ⟨same, named⟩
      · exact .inl old
      · refine .inr ⟨same, fun above member => ?_⟩
        rcases named above member with own | ⟨outer, there, inherited⟩
        · exact .inl own
        · exact .inr (separate.lineage_outside there outside above inherited)
  cases rescopes_apply state move with
  | same still =>
      by_cases other : ∀ context steps, move ≠ .openCall context steps
      · exact unchanged other fun id scope found => ⟨scope, still ▸ found, rfl⟩
      · simp only [not_forall, not_not] at other
        obtain ⟨context, steps, rfl⟩ := other
        have longer := length_scopes_openCall state context steps
        rw [still] at longer
        omega
  | background turn added =>
      subst turn
      refine separate.of_added apart (fun base member => .inl member) ?_ fun id scope found => ?_
      · simp [State.apply, State.addBackground, Scopes.addBackground]
      · rcases getElem?_concat_cases found with old | ⟨same, rfl⟩
        · exact .inl old
        · exact .inr ⟨same, fun above member => .inl (List.mem_singleton.mp member)⟩
  | derived parent deadline turn added =>
      rcases turn with rfl | ⟨_, steps, rfl⟩
      · exact derived apart added fun base member => .inl member
      · refine derived apart added fun base member => ?_
        rcases List.mem_append.mp (bases_openCall state parent steps ▸ member) with old | new
        · exact .inl old
        · exact .inr (List.mem_singleton.mp new)
  | canceled target may marked =>
      refine unchanged ?_ fun id scope found => ?_
      · rintro context steps rfl
        exact may
      · rw [marked, Scopes.getElem?_cancel] at found
        obtain ⟨old, there, rfl⟩ := Option.map_eq_some_iff.mp found
        exact ⟨old, there, by split <;> rfl⟩

theorem Separate.play (separate : state.Separate) {moves : List Move}
    (stays : state.StaysApart moves) : (state.play moves).Separate := by
  induction moves generalizing state with
  | nil => exact separate
  | cons move moves ih => exact ih (separate.apply stays.1) stays.2

/-! ## What does not touch a context -/

theorem Separate.getElem?_cancel (separate : state.Separate) {target context : ScopeId}
    (own : target ∈ state.bases) (outside : context ∉ state.bases) :
    (state.scopes.cancel target)[context]? = state.scopes[context]? := by
  rw [Scopes.getElem?_cancel]
  cases found : state.scopes[context]? with
  | none => rfl
  | some scope =>
      have apart : target ∉ scope.lineage := fun member =>
        outside (separate.pure context scope found target member own ▸ own)
      simp [apart]

/-- What anybody else but the canceler of a context may cancel is the scope of a call. -/
theorem Separate.mem_bases_of_mayCancel (separate : state.Separate) {target : ScopeId}
    (other : ∀ scope, move ≠ .cancel scope) (may : state.MayCancel target move) :
    target ∈ state.bases := by
  unfold MayCancel at may
  split at may
  · exact absurd rfl (other _)
  · obtain ⟨task, found, rfl, _⟩ := may
    exact separate.posts _ (List.mem_map_of_mem (List.mem_of_getElem? found))
  · obtain ⟨call, found, rfl, _⟩ := may
    exact List.mem_map_of_mem (List.mem_of_getElem? found)
  · cases may

theorem Separate.getElem?_apply (separate : state.Separate) {context : ScopeId}
    (known : context < state.scopes.length) (outside : context ∉ state.bases)
    (other : ∀ scope, move ≠ .cancel scope) :
    (state.apply move).scopes[context]? = state.scopes[context]? := by
  cases rescopes_apply state move with
  | same still => rw [still]
  | background _ added =>
      rw [added]
      exact List.getElem?_append_left known
  | derived parent deadline _ added =>
      rw [added, Scopes.derive]
      split <;> exact List.getElem?_append_left known
  | canceled target may marked =>
      rw [marked]
      exact separate.getElem?_cancel (separate.mem_bases_of_mayCancel other may) outside

theorem not_mem_bases_apply {context : ScopeId}
    (known : context < state.scopes.length) (outside : context ∉ state.bases)
    (apart : state.KeepsApart move) : context ∉ (state.apply move).bases := by
  rcases sameWiring_apply state move with same | ⟨parent, steps, rfl⟩ | ⟨target, script, rfl⟩
  · rw [same.bases]
    exact outside
  · rw [bases_openCall, List.mem_append, List.mem_singleton, not_or]
    exact ⟨outside, Nat.ne_of_lt known⟩
  · exact absurd apart id

theorem Separate.getElem?_play (separate : state.Separate) {context : ScopeId}
    (known : context < state.scopes.length) (outside : context ∉ state.bases) {moves : List Move}
    (stays : state.StaysApart moves) (other : ∀ scope, .cancel scope ∉ moves) :
    (state.play moves).scopes[context]? = state.scopes[context]? := by
  induction moves generalizing state with
  | nil => rfl
  | cons move moves ih =>
      have longer := Nat.lt_of_lt_of_le known (apply_extends state move).length_le
      have unnamed : ∀ scope, move ≠ .cancel scope := fun scope same => other scope (by simp [same])
      rw [play_cons, ih (separate.apply stays.1) longer
        (not_mem_bases_apply known outside stays.1) stays.2
        fun scope member => other scope (List.mem_cons_of_mem _ member)]
      exact separate.getElem?_apply known outside unnamed

end State

end OrderDesk.Schedule
