import OrderDesk.Proofs.Pieces

/-! What becomes of a line when a read fails in the middle of it. Its beginning is lost, and an error
stands for it, but reading goes on right behind the failure and not with the next line. So what is left
of the line is read as a line of its own, and may be an order. Every other order is on a whole line of
the source, and if no read fails in the middle of a line, then the lines that are read are those of the
source. -/

namespace OrderDesk.Lines

/-- The bytes that a source gives in all, whatever reads of it fail. -/
def stream (pieces : List Piece) : List UInt8 :=
  pieces.flatMap Piece.given

/-- No read fails in the middle of a line. -/
def Unbroken (pieces : List Piece) : Prop :=
  ∀ before message after, pieces = before ++ .failure message :: after →
    openLine (stream before) = []

/-- A read fails in the middle of a line, between this beginning of it and the line that is read
next. -/
def Tears (pieces : List Piece) (head tail : List UInt8) : Prop :=
  ∃ before message after, pieces = before ++ .failure message :: after ∧
    openLine (stream before) = head ∧ head ≠ [] ∧ (rawLines after).head? = some (.ok tail)

theorem stream_append (first second : List Piece) :
    stream (first ++ second) = stream first ++ stream second :=
  List.flatMap_append

theorem line_induction {motive : List UInt8 → Prop}
    (within : ∀ bytes, lineFeed ∉ bytes → motive bytes)
    (ends : ∀ line rest, lineFeed ∉ line → motive rest → motive (line ++ lineFeed :: rest))
    (bytes : List UInt8) : motive bytes := by
  induction size : bytes.length using Nat.strongRecOn generalizing bytes with
  | ind length ih =>
      by_cases member : lineFeed ∈ bytes
      · obtain ⟨line, rest, rfl, absent⟩ := List.eq_append_cons_of_mem member
        have shorter : rest.length < length := by
          rw [← size, List.length_append, List.length_cons]
          omega
        exact ends line rest absent (ih _ shorter rest rfl)
      · exact within bytes member

theorem closedLines_line {line : List UInt8} (absent : lineFeed ∉ line) (rest : List UInt8) :
    closedLines (line ++ lineFeed :: rest) = withoutReturn line :: closedLines rest := by
  rw [closedLines_append, closedLines_of_not_mem absent, openLine_of_not_mem absent, List.nil_append]

theorem lines_line {line : List UInt8} (absent : lineFeed ∉ line) (rest : List UInt8) :
    lines (line ++ lineFeed :: rest) = withoutReturn line :: lines rest := by
  rw [lines, closedLines_line absent, openLine_append, lines, List.cons_append]

theorem lines_of_not_mem {bytes : List UInt8} (absent : lineFeed ∉ bytes) :
    lines bytes = if bytes = [] then [] else [bytes] := by
  rw [lines, closedLines_of_not_mem absent, openLine_of_not_mem absent, List.nil_append]

theorem not_mem_openLine (bytes : List UInt8) : lineFeed ∉ openLine bytes := by
  induction bytes using line_induction with
  | within bytes absent => rwa [openLine_of_not_mem absent]
  | ends line rest _ ih => rwa [openLine_append]

theorem lines_append (first second : List UInt8) :
    lines (first ++ second) = closedLines first ++ lines (openLine first ++ second) := by
  induction first using line_induction with
  | within bytes absent =>
      rw [closedLines_of_not_mem absent, openLine_of_not_mem absent, List.nil_append]
  | ends line rest absent ih =>
      rw [List.append_assoc, List.cons_append, lines_line absent, ih, closedLines_line absent,
        openLine_append, List.cons_append]

theorem openLine_openLine (first second : List UInt8) :
    openLine (openLine first ++ second) = openLine (first ++ second) := by
  induction first using line_induction with
  | within bytes absent => rw [openLine_of_not_mem absent]
  | ends line rest absent ih =>
      rw [openLine_append, ih, List.append_assoc, List.cons_append, openLine_append]

theorem tail_closedLines {lost : List UInt8} (absent : lineFeed ∉ lost) (bytes : List UInt8) :
    (closedLines (lost ++ bytes)).tail = (closedLines bytes).tail := by
  by_cases member : lineFeed ∈ bytes
  · obtain ⟨line, rest, rfl, absent'⟩ := List.eq_append_cons_of_mem member
    have joined : lineFeed ∉ lost ++ line := by simp [absent, absent']
    rw [← List.append_assoc, closedLines_line joined, closedLines_line absent', List.tail_cons,
      List.tail_cons]
  · have joined : lineFeed ∉ lost ++ bytes := by simp [absent, member]
    rw [closedLines_of_not_mem joined, closedLines_of_not_mem member]

theorem tail_lines {lost : List UInt8} (absent : lineFeed ∉ lost) (bytes : List UInt8) :
    (lines (lost ++ bytes)).tail = (lines bytes).tail := by
  by_cases member : lineFeed ∈ bytes
  · obtain ⟨line, rest, rfl, absent'⟩ := List.eq_append_cons_of_mem member
    have joined : lineFeed ∉ lost ++ line := by simp [absent, absent']
    rw [← List.append_assoc, lines_line joined, lines_line absent', List.tail_cons, List.tail_cons]
  · have joined : lineFeed ∉ lost ++ bytes := by simp [absent, member]
    rw [lines_of_not_mem joined, lines_of_not_mem member]
    split <;> split <;> rfl

theorem mem_or_first {lost : List UInt8} {read whole : List (List UInt8)}
    (nothing : lost = [] → whole = read) (same : whole.tail = read.tail) {line : List UInt8}
    (member : line ∈ read) : line ∈ whole ∨ lost ≠ [] ∧ read.head? = some line := by
  by_cases more : lost = []
  · exact .inl (nothing more ▸ member)
  · cases read with
    | nil => cases member
    | cons first others =>
        rcases List.mem_cons.mp member with rfl | later
        · exact .inr ⟨more, rfl⟩
        · exact .inl (List.mem_of_mem_tail (same ▸ later))

theorem mem_closedLines_or_first {lost : List UInt8} (absent : lineFeed ∉ lost) {bytes line : List UInt8}
    (member : line ∈ closedLines bytes) :
    line ∈ closedLines (lost ++ bytes) ∨ lost ≠ [] ∧ (closedLines bytes).head? = some line :=
  mem_or_first (fun nothing => by rw [nothing, List.nil_append]) (tail_closedLines absent bytes) member

theorem mem_lines_or_first {lost : List UInt8} (absent : lineFeed ∉ lost) {bytes line : List UInt8}
    (member : line ∈ lines bytes) :
    line ∈ lines (lost ++ bytes) ∨ lost ≠ [] ∧ (lines bytes).head? = some line :=
  mem_or_first (fun nothing => by rw [nothing, List.nil_append]) (tail_lines absent bytes) member

theorem withoutReturn_append (first : List UInt8) {second : List UInt8} (more : second ≠ []) :
    withoutReturn (first ++ second) = first ++ withoutReturn second := by
  rw [withoutReturn, withoutReturn, List.getLast?_append_of_ne_nil _ more,
    List.dropLast_append_of_ne_nil more]
  split <;> rfl

theorem withoutReturn_nil : withoutReturn [] = [] := rfl

theorem exists_first_failure (pieces : List Piece) :
    (∀ message, .failure message ∉ pieces) ∨ ∃ before message after,
      pieces = before ++ .failure message :: after ∧ ∀ message, .failure message ∉ before := by
  induction pieces with
  | nil => exact .inl fun _ => List.not_mem_nil
  | cons piece pieces ih =>
      by_cases fails : ∃ message, piece = .failure message
      · obtain ⟨message, rfl⟩ := fails
        exact .inr ⟨[], message, pieces, rfl, fun _ => List.not_mem_nil⟩
      · have sound (message : String) : .failure message ≠ piece := fun same => fails ⟨message, same.symm⟩
        rcases ih with none | ⟨before, message, after, rfl, none⟩
        · exact .inl fun message => List.not_mem_cons_of_ne_of_not_mem (sound message) (none message)
        · exact .inr ⟨piece :: before, message, after, rfl,
            fun message => List.not_mem_cons_of_ne_of_not_mem (sound message) (none message)⟩

theorem failure_induction {motive : List Piece → Prop}
    (sound : ∀ pieces, Gives pieces (stream pieces) → motive pieces)
    (broken : ∀ before message after, Gives before (stream before) → motive after →
      motive (before ++ .failure message :: after)) (pieces : List Piece) : motive pieces := by
  induction size : pieces.length using Nat.strongRecOn generalizing pieces with
  | ind length ih =>
      rcases exists_first_failure pieces with none | ⟨before, message, after, rfl, none⟩
      · exact sound pieces ⟨none, rfl⟩
      · have shorter : after.length < length := by
          rw [← size, List.length_append, List.length_cons]
          omega
        exact broken before message after ⟨none, rfl⟩ (ih _ shorter after rfl)

theorem rawLines_broken {before : List Piece} (gives : Gives before (stream before))
    (message : String) (after : List Piece) :
    rawLines (before ++ .failure message :: after) =
      (closedLines (stream before)).map .ok ++ .error message :: rawLines after := by
  rw [rawLines_failure, endedLines_of_gives gives, List.nil_append]

theorem stream_broken (before : List Piece) (message : String) (after : List Piece) :
    stream (before ++ .failure message :: after) = stream before ++ stream after :=
  stream_append before (.failure message :: after)

theorem Unbroken.behind {before : List Piece} {message : String} {after : List Piece}
    (unbroken : Unbroken (before ++ .failure message :: after)) :
    openLine (stream before) = [] ∧ Unbroken after := by
  have at_failure := unbroken before message after rfl
  refine ⟨at_failure, ?_⟩
  rintro middle message' rest rfl
  have behind := unbroken (before ++ .failure message :: middle) message' rest (by simp)
  rwa [stream_broken, ← openLine_openLine, at_failure, List.nil_append] at behind

/-- If no line is torn, the lines that are read are those of the source. -/
theorem Unbroken.lines_eq {pieces : List Piece} (unbroken : Unbroken pieces) :
    (rawLines pieces).filterMap Except.toOption = lines (stream pieces) := by
  induction pieces using failure_induction with
  | sound pieces gives =>
      rw [rawLines_of_gives gives, List.filterMap_map]
      exact List.filterMap_some
  | broken before message after gives ih =>
      obtain ⟨at_failure, behind⟩ := unbroken.behind
      rw [rawLines_broken gives, stream_broken, lines_append, at_failure, List.nil_append, ← ih behind,
        List.filterMap_append, List.filterMap_map]
      congr 1
      exact List.filterMap_some

/-! ## Torn lines -/

/-- A line that is read, behind some of the source, is a whole line, or it is read first and the line
that it belongs to began earlier, or else a failure has torn it. -/
theorem place_of_read (earlier pieces : List Piece) {line : List UInt8}
    (read : .ok line ∈ rawLines pieces) :
    line ∈ lines (stream (earlier ++ pieces)) ∨
      openLine (stream earlier) ≠ [] ∧ (rawLines pieces).head? = some (.ok line) ∨
      ∃ head, Tears (earlier ++ pieces) head line := by
  induction pieces using failure_induction generalizing earlier with
  | sound pieces gives =>
      rw [rawLines_of_gives gives] at read ⊢
      obtain ⟨_, member, rfl⟩ : ∃ same, line ∈ lines (stream pieces) ∧ same = line := by simpa using read
      rw [stream_append, lines_append]
      rcases mem_lines_or_first (not_mem_openLine (stream earlier)) member with whole | ⟨began, first⟩
      · exact .inl (List.mem_append_right _ whole)
      · refine .inr (.inl ⟨began, ?_⟩)
        rw [List.head?_map, first, Option.map_some]
  | broken before message after gives ih =>
      rw [rawLines_broken gives] at read ⊢
      rcases List.mem_append.mp read with closed | behind
      · have member : line ∈ closedLines (stream before) := by simpa using closed
        have ended : closedLines (openLine (stream earlier) ++ stream before) ⊆
            lines (stream (earlier ++ (before ++ .failure message :: after))) := by
          rw [stream_append, stream_broken, lines_append, ← List.append_assoc, lines_append]
          exact fun _ found => List.mem_append_right _ (List.mem_append_left _ found)
        rcases mem_closedLines_or_first (not_mem_openLine (stream earlier)) member with
          whole | ⟨began, first⟩
        · exact .inl (ended whole)
        · refine .inr (.inl ⟨began, ?_⟩)
          rw [List.head?_append, List.head?_map, first, Option.map_some, Option.some_or]
      · have later : .ok line ∈ rawLines after := by simpa using behind
        have whole : earlier ++ before ++ [Piece.failure message] ++ after =
            earlier ++ (before ++ .failure message :: after) := by simp
        have given : stream (earlier ++ before ++ [.failure message]) = stream (earlier ++ before) := by
          rw [stream_append _ [.failure message]]
          exact List.append_nil _
        have found := ih (earlier ++ before ++ [.failure message]) later
        rw [whole] at found
        rcases found with found | ⟨began, first⟩ | torn
        · exact .inl found
        · rw [given] at began
          exact .inr (.inr ⟨_, earlier ++ before, message, after, by simp, rfl, began, first⟩)
        · exact .inr (.inr torn)

theorem exists_front_of_head {pieces : List Piece} {line : List UInt8}
    (first : (rawLines pieces).head? = some (.ok line)) :
    (lineFeed ∉ stream pieces ∧ stream pieces = line) ∨ ∃ front rest,
      stream pieces = front ++ lineFeed :: rest ∧ lineFeed ∉ front ∧ withoutReturn front = line := by
  rcases exists_first_failure pieces with none | ⟨before, message, after, rfl, none⟩
  · rw [rawLines_of_gives ⟨none, rfl⟩] at first
    change (List.map _ (lines (stream pieces))).head? = _ at first
    by_cases member : lineFeed ∈ stream pieces
    · obtain ⟨front, rest, split, absent⟩ := List.eq_append_cons_of_mem member
      rw [split, lines_line absent] at first
      exact .inr ⟨front, rest, split, absent, Except.ok.inj (Option.some.inj first)⟩
    · rw [lines_of_not_mem member] at first
      split at first
      · cases first
      · exact .inl ⟨member, Except.ok.inj (Option.some.inj first)⟩
  · rw [rawLines_broken ⟨none, rfl⟩] at first
    by_cases member : lineFeed ∈ stream before
    · obtain ⟨front, rest, split, absent⟩ := List.eq_append_cons_of_mem member
      rw [split, closedLines_line absent] at first
      refine .inr ⟨front, rest ++ stream after, ?_, absent, Except.ok.inj (Option.some.inj first)⟩
      rw [stream_broken, split, List.append_assoc, List.cons_append]
    · rw [closedLines_of_not_mem member] at first
      cases first

theorem Tears.whole {pieces : List Piece} {head tail : List UInt8} (tears : Tears pieces head tail)
    (solid : tail ≠ []) : head ++ tail ∈ lines (stream pieces) := by
  obtain ⟨before, message, after, rfl, began, _, first⟩ := tears
  have absent : lineFeed ∉ head := began ▸ not_mem_openLine _
  rw [stream_broken, lines_append, began]
  refine List.mem_append_right _ ?_
  rcases exists_front_of_head first with ⟨absent', rfl⟩ | ⟨front, rest, split, absent', rfl⟩
  · have joined : lineFeed ∉ head ++ stream after := by simp [absent, absent']
    have more : head ++ stream after ≠ [] := by simp [solid]
    rw [lines_of_not_mem joined, if_neg more]
    exact List.mem_singleton_self _
  · have joined : lineFeed ∉ head ++ front := by simp [absent, absent']
    have more : front ≠ [] := fun nothing => solid (nothing ▸ withoutReturn_nil)
    rw [split, ← List.append_assoc, lines_line joined, withoutReturn_append _ more]
    exact List.mem_cons_self

theorem exists_line_of_order {pieces : List Piece} {order : Order} (listed : .ok order ∈ orders pieces) :
    ∃ line, .ok line ∈ rawLines pieces ∧ item? (.ok line) = some (.ok order) := by
  obtain ⟨raw, read, item⟩ := List.mem_filterMap.mp listed
  cases raw with
  | error message => cases item
  | ok line => exact ⟨line, read, item⟩

theorem solid_of_order {line : List UInt8} {order : Order}
    (item : item? (.ok line) = some (.ok order)) : line ≠ [] := by
  rintro rfl
  have white : IsWhiteSpace [] := ⟨[], rfl, nofun⟩
  rw [item?_of_white white] at item
  cases item

theorem Unbroken.orders_eq {pieces : List Piece} (unbroken : Unbroken pieces) :
    (orders pieces).filterMap Except.toOption =
      ((lines (stream pieces)).filterMap fun line => item? (.ok line)).filterMap Except.toOption := by
  rw [← unbroken.lines_eq, orders, List.filterMap_filterMap, List.filterMap_filterMap,
    List.filterMap_filterMap]
  refine List.filterMap_congr fun raw _ => ?_
  cases raw with
  | error message => rfl
  | ok line => rfl

/-- If no read fails in the middle of a line, then the orders of a source are those of its lines.
Otherwise an order is on a line of the source, or else on the rest of a line whose beginning was lost
with a read that failed. A read that fails is an error, and behind it the source is read as one of its
own: whatever the rest of a torn line holds is taken for what the line holds. -/
theorem orders_on_torn_lines (pieces : List Piece) :
    (Unbroken pieces → (rawLines pieces).filterMap Except.toOption = lines (stream pieces) ∧
      (orders pieces).filterMap Except.toOption =
        ((lines (stream pieces)).filterMap fun line => item? (.ok line)).filterMap
          Except.toOption) ∧
      (∀ order, .ok order ∈ orders pieces → ∃ line, item? (.ok line) = some (.ok order) ∧
        (line ∈ lines (stream pieces) ∨
          ∃ head, Tears pieces head line ∧ head ++ line ∈ lines (stream pieces))) ∧
      (∀ before message after, pieces = before ++ .failure message :: after →
        orders pieces =
          (endedLines [] before).filterMap item? ++ .error (.io message) :: orders after) ∧
      ∀ head tail item, Tears pieces head tail → item? (.ok tail) = some item →
        item ∈ orders pieces := by
  have failing (before : List Piece) (message : String) (after : List Piece) :
      orders (before ++ .failure message :: after) =
        (endedLines [] before).filterMap item? ++ .error (.io message) :: orders after := by
    rw [orders, rawLines_failure, List.filterMap_append, List.filterMap_cons]
    rfl
  refine ⟨fun unbroken => ⟨unbroken.lines_eq, unbroken.orders_eq⟩, fun order listed => ?_, ?_, ?_⟩
  · obtain ⟨line, read, item⟩ := exists_line_of_order listed
    refine ⟨line, item, ?_⟩
    rcases place_of_read [] pieces read with whole | ⟨began, _⟩ | ⟨head, torn⟩
    · exact .inl whole
    · exact absurd rfl began
    · exact .inr ⟨head, torn, torn.whole (solid_of_order item)⟩
  · rintro before message after rfl
    exact failing before message after
  · rintro head tail item ⟨before, message, after, rfl, _, _, first⟩ found
    have read : .ok tail ∈ rawLines after := List.mem_of_mem_head? first
    rw [failing]
    exact List.mem_append_right _ (List.mem_cons_of_mem _ (List.mem_filterMap.mpr ⟨_, read, found⟩))

/-- A line that is no order, but ends like one, and a line with an order. The read fails in the middle of
the first line. -/
def tornSource : List Piece :=
  [.bytes ("not an order: ".toList.flatMap String.utf8EncodeChar), .failure "gone",
    .bytes ("\x7b\"order_id\":\"o-1\"\x7d\n\x7b\"order_id\":\"o-2\"\x7d\n".toList.flatMap
      String.utf8EncodeChar)]

/-- An order is taken from the rest of the torn line, though it is on no line of the source. -/
theorem orders_of_tornSource :
    orders tornSource = [.error (.io "gone"), .ok (.new "o-1" 0), .ok (.new "o-2" 0)] ∧
      ∀ line ∈ lines (stream tornSource), item? (.ok line) ≠ some (.ok (.new "o-1" 0)) :=
  ⟨by decide +kernel, by decide +kernel⟩

end OrderDesk.Lines
