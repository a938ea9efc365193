import OrderDesk.Proofs.Entrances

/-! A source of orders may give its bytes in any pieces. What it comes to are the lines of its bytes,
however they are cut and however often a read is interrupted. A read that fails takes the unfinished
line with it, and from there on the source is read as one of its own. -/

namespace OrderDesk.Lines

def Piece.given : Piece → List UInt8
  | .bytes given => given
  | .failure _ => []
  | .interrupted => []

/-- No read of the source fails, and these are the bytes that it gives. -/
def Gives (pieces : List Piece) (bytes : List UInt8) : Prop :=
  (∀ message, .failure message ∉ pieces) ∧ pieces.flatMap Piece.given = bytes

/-- A line without the carriage return at its end, if there is one. -/
def withoutReturn (line : List UInt8) : List UInt8 :=
  if line.getLast? = some carriageReturn then line.dropLast else line

def closedLines (bytes : List UInt8) : List (List UInt8) :=
  (bytes.splitOn lineFeed).dropLast.map withoutReturn

def openLine (bytes : List UInt8) : List UInt8 :=
  (bytes.splitOn lineFeed).getLast (List.splitOn_ne_nil lineFeed bytes)

/-- All lines. The last one need not end with a line feed, but then it has to hold something. -/
def lines (bytes : List UInt8) : List (List UInt8) :=
  closedLines bytes ++ if openLine bytes = [] then [] else [openLine bytes]

/-- The lines of a source that have come to their end, behind these bytes: with a line feed, or with
the failure that broke them off. -/
def endedLines (bytes : List UInt8) : List Piece → List RawLine
  | [] => (closedLines bytes).map .ok
  | .bytes more :: pieces => endedLines (bytes ++ more) pieces
  | .interrupted :: pieces => endedLines bytes pieces
  | .failure message :: pieces =>
      (closedLines bytes).map .ok ++ .error message :: endedLines [] pieces

theorem closedLines_of_not_mem {bytes : List UInt8} (absent : lineFeed ∉ bytes) :
    closedLines bytes = [] := by
  rw [closedLines, List.splitOn_eq_singleton absent]
  rfl

theorem openLine_of_not_mem {bytes : List UInt8} (absent : lineFeed ∉ bytes) :
    openLine bytes = bytes := by
  simp only [openLine, List.splitOn_eq_singleton absent, List.getLast_singleton]

theorem closedLines_append (first second : List UInt8) :
    closedLines (first ++ lineFeed :: second) =
      closedLines first ++ withoutReturn (openLine first) :: closedLines second := by
  have parts := List.dropLast_append_getLast (List.splitOn_ne_nil lineFeed first)
  rw [closedLines, List.splitOn_append_cons_self,
    List.dropLast_append_of_ne_nil (List.splitOn_ne_nil lineFeed second), List.map_append,
    ← parts, List.map_append, List.append_assoc]
  rfl

theorem openLine_append (first second : List UInt8) :
    openLine (first ++ lineFeed :: second) = openLine second := by
  simp only [openLine, List.splitOn_append_cons_self]
  exact List.getLast_append_of_ne_nil _ _

theorem endLine_reverse (line : List UInt8) : endLine line.reverse = withoutReturn line := by
  rcases List.eq_nil_or_concat line with rfl | ⟨front, last, rfl⟩
  · rfl
  · rw [List.concat_eq_append, List.reverse_append]
    simp [endLine, withoutReturn]

/-- What is gathered of some bytes are their lines. -/
theorem gather_eq (bytes : List UInt8) :
    gather bytes = ⟨(openLine bytes).reverse, ((closedLines bytes).map .ok).reverse⟩ := by
  -- The induction is on the number of bytes, as what comes behind a line feed is shorter.
  induction size : bytes.length using Nat.strongRecOn generalizing bytes with
  | ind length ih =>
      by_cases member : lineFeed ∈ bytes
      · obtain ⟨first, second, rfl, absent⟩ := List.eq_append_cons_of_mem member
        have shorter : second.length < length := by
          rw [← size, List.length_append, List.length_cons]
          omega
        rw [gather_append, ih _ shorter second rfl, gather_of_not_mem absent, endLine_reverse,
          closedLines_append, openLine_append, closedLines_of_not_mem absent,
          openLine_of_not_mem absent]
        simp
      · rw [gather_of_not_mem member, closedLines_of_not_mem member, openLine_of_not_mem member]
        rfl

theorem rawLines_bytes (bytes : List UInt8) :
    rawLines [.bytes bytes] = (lines bytes).map .ok := by
  rw [rawLines_eq, gather_eq, lines]
  by_cases nothing : openLine bytes = []
  · simp [nothing]
  · simp [nothing]

theorem gives_cons {piece : Piece} {pieces : List Piece} {bytes : List UInt8} :
    Gives (piece :: pieces) bytes ↔ (∀ message, .failure message ≠ piece) ∧
      ∃ more, Gives pieces more ∧ bytes = piece.given ++ more := by
  simp only [Gives, List.mem_cons, not_or, forall_and, List.flatMap_cons]
  constructor
  · rintro ⟨⟨first, others⟩, rfl⟩
    exact ⟨first, _, ⟨others, rfl⟩, rfl⟩
  · rintro ⟨first, _, ⟨others, rfl⟩, rfl⟩
    exact ⟨⟨first, others⟩, rfl⟩

theorem foldl_piece_of_gives {pieces : List Piece} {bytes : List UInt8} (gives : Gives pieces bytes)
    (gathered : Gathered) :
    pieces.foldl Gathered.piece gathered = bytes.foldl Gathered.byte gathered := by
  induction pieces generalizing bytes gathered with
  | nil =>
      obtain ⟨_, rfl⟩ := gives
      rfl
  | cons piece pieces ih =>
      obtain ⟨sound, more, others, rfl⟩ := gives_cons.mp gives
      rw [List.foldl_cons, ih others, List.foldl_append]
      cases piece with
      | bytes bytes => rfl
      | failure message => exact absurd rfl (sound message)
      | interrupted => rfl

theorem rawLines_of_gives {pieces : List Piece} {bytes : List UInt8} (gives : Gives pieces bytes) :
    rawLines pieces = (lines bytes).map .ok := by
  rw [← rawLines_bytes, rawLines, foldl_piece_of_gives gives]
  rfl

theorem endedLines_of_gives {pieces : List Piece} {bytes more : List UInt8}
    (gives : Gives pieces more) :
    endedLines bytes pieces = (closedLines (bytes ++ more)).map .ok := by
  induction pieces generalizing bytes more with
  | nil =>
      obtain ⟨_, rfl⟩ := gives
      rw [endedLines, List.flatMap_nil, List.append_nil]
  | cons piece pieces ih =>
      obtain ⟨sound, rest, others, rfl⟩ := gives_cons.mp gives
      cases piece with
      | bytes first => rw [endedLines, ih others, Piece.given, List.append_assoc]
      | failure message => exact absurd rfl (sound message)
      | interrupted => rw [endedLines, ih others, Piece.given, List.nil_append]

theorem foldl_piece (pieces : List Piece) (current : List UInt8) (lines : List RawLine) :
    pieces.foldl Gathered.piece ⟨current, lines⟩ =
      ⟨(pieces.foldl Gathered.piece ⟨current, []⟩).current,
        (pieces.foldl Gathered.piece ⟨current, []⟩).lines ++ lines⟩ := by
  induction pieces generalizing current lines with
  | nil => rfl
  | cons piece pieces ih =>
      cases piece with
      | bytes bytes =>
          rw [List.foldl_cons, List.foldl_cons, Gathered.piece, Gathered.piece, foldl_byte,
            ih _ (_ ++ lines), ih _ (bytes.foldl Gathered.byte ⟨current, []⟩).lines]
          simp
      | failure message =>
          rw [List.foldl_cons, List.foldl_cons, Gathered.piece, Gathered.piece,
            ih [] (_ :: lines), ih [] [.error message]]
          simp
      | interrupted => exact ih current lines

theorem lines_foldl_piece (pieces : List Piece) (bytes : List UInt8) :
    (pieces.foldl Gathered.piece (gather bytes)).lines = (endedLines bytes pieces).reverse := by
  induction pieces generalizing bytes with
  | nil => rw [List.foldl_nil, gather_eq, endedLines]
  | cons piece pieces ih =>
      cases piece with
      | bytes more =>
          rw [endedLines, ← ih, List.foldl_cons, gather, gather, List.foldl_append]
          rfl
      | failure message =>
          have behind := ih []
          simp only [List.foldl_cons, Gathered.piece, endedLines]
          rw [foldl_piece, gather_eq, List.reverse_append, List.reverse_cons, ← behind]
          simp [gather]
      | interrupted => exact ih bytes

theorem rawLines_failure (before after : List Piece) (message : String) :
    rawLines (before ++ .failure message :: after) =
      endedLines [] before ++ .error message :: rawLines after := by
  have ended := lines_foldl_piece before []
  rw [rawLines, List.foldl_append, List.foldl_cons, Gathered.piece, foldl_piece]
  rw [show gather [] = ⟨[], []⟩ from rfl] at ended
  rw [ended, rawLines, Gathered.finish, Gathered.finish]
  split <;> simp

/-! ## Orders -/

theorem item?_of_white {line : List UInt8} (white : IsWhiteSpace line) : item? (.ok line) = none := by
  rcases item?_cases line with ⟨_, _, nothing⟩ | ⟨other, _⟩
  · exact nothing
  · exact absurd white other

theorem item?_of_binary {line : List UInt8} (binary : ∀ text : String, utf8 text ≠ line) :
    item? (.ok line) = some (.error (.io notUtf8)) := by
  cases decoded : String.fromUTF8? ⟨line.toArray⟩ with
  | none => rw [item?, decoded]
  | some text => exact absurd (utf8_eq text ▸ (fromUTF8?_eq_some.mp decoded).symm) (binary text)

theorem item?_of_text {text : String} (other : ¬ IsWhiteSpace (utf8 text)) :
    item? (.ok (utf8 text)) = some ((Order.parse text).mapError .json) := by
  have solid : text.toList.all Text.isBlank = false := by
    by_contra blank
    rw [Bool.not_eq_false] at blank
    exact other ⟨text.toList, utf8_eq text, List.all_eq_true.mp blank⟩
  rw [item?, fromUTF8?_eq_some.mpr (utf8_eq text)]
  simp only [solid, Bool.false_eq_true, if_false]

/-- A source whose reads do not fail comes to what is on the lines of its bytes, one after another, and
every line is judged as a whole: white space is passed over, and everything else is an order or an
error. Where a read fails, the lines that have ended before it count, the failure is an error, and
what comes behind it is read on its own. -/
theorem orders_cut_anyhow {pieces : List Piece} {bytes : List UInt8} (gives : Gives pieces bytes) :
    orders pieces = (lines bytes).filterMap (fun line => item? (.ok line)) ∧
      (∀ line, IsWhiteSpace line → item? (.ok line) = none) ∧
      (∀ line, (∀ text : String, utf8 text ≠ line) →
        item? (.ok line) = some (.error (.io notUtf8))) ∧
      (∀ text : String, ¬ IsWhiteSpace (utf8 text) →
        item? (.ok (utf8 text)) = some ((Order.parse text).mapError .json)) ∧
      (∀ message after, orders (pieces ++ .failure message :: after) =
        (closedLines bytes).filterMap (fun line => item? (.ok line)) ++
          .error (.io message) :: orders after) ∧
      ∀ before message after, orders (before ++ .failure message :: after) =
        (endedLines [] before).filterMap item? ++ .error (.io message) :: orders after := by
  have failing (before : List Piece) (message : String) (after : List Piece) :
      orders (before ++ .failure message :: after) =
        (endedLines [] before).filterMap item? ++ .error (.io message) :: orders after := by
    rw [orders, rawLines_failure, List.filterMap_append, List.filterMap_cons]
    rfl
  refine ⟨?_, fun _ => item?_of_white, fun _ => item?_of_binary, fun _ => item?_of_text,
    fun message after => ?_, failing⟩
  · rw [orders, rawLines_of_gives gives, List.filterMap_map]
    rfl
  · rw [failing, endedLines_of_gives gives, List.nil_append, List.filterMap_map]
    rfl

/-- An order with a character of two bytes, a blank line and a byte that is no text. -/
def motley : List UInt8 :=
  "\x7b\"order_id\":\"é\"\x7d\r\n \r\n".toList.flatMap String.utf8EncodeChar ++ [0xff]

/-- The same, cut inside the character and in front of a line feed. -/
def scattered : List Piece :=
  [.bytes (motley.take 14), .interrupted, .bytes ((motley.drop 14).take 4), .interrupted,
    .interrupted, .bytes (motley.drop 18)]

theorem orders_scattered :
    Gives scattered motley ∧
      orders scattered = [.ok (.new "é" 0), .error (.io notUtf8)] ∧
      orders (scattered ++ [.failure "gone"]) = [.ok (.new "é" 0), .error (.io "gone")] := by
  have gives : Gives scattered motley := ⟨by simp [scattered], by decide⟩
  obtain ⟨whole, _, _, _, broken, _⟩ := orders_cut_anyhow gives
  refine ⟨gives, whole.trans ?_, (broken "gone" []).trans ?_⟩
  · decide +kernel
  · decide +kernel

end OrderDesk.Lines
