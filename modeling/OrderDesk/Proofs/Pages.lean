import OrderDesk.CommandLine.Program
import OrderDesk.Proofs.Enclosures
import OrderDesk.Proofs.IdleDesks

/-! A file of orders is worked off line by line. Nothing is carried over a line feed: not by the
reading of lines, where a carriage return at the end of a file makes no difference to the order on
the last line, and not by the desk, which is idle again after every order. So a file comes to what its
lines come to on their own. -/

namespace OrderDesk

open Schedule

namespace Lines

theorem fromUTF8?_eq_some {bytes : List UInt8} {text : String} :
    String.fromUTF8? ⟨bytes.toArray⟩ = some text ↔
      bytes = text.toList.flatMap String.utf8EncodeChar := by
  have whole : (⟨bytes.toArray⟩ : ByteArray) = bytes.toByteArray := by simp [ByteArray.ext_iff]
  have encoded : text.toByteArray = (text.toList.flatMap String.utf8EncodeChar).toByteArray :=
    String.utf8Encode_toList.symm
  rw [whole, ← List.toByteArray_inj, ← encoded]
  unfold String.fromUTF8?
  split
  · rename_i valid
    rw [Option.some_inj, ← String.toByteArray_inj]
    rfl
  · rename_i invalid
    simp only [reduceCtorEq, false_iff]
    exact fun same => invalid (same ▸ text.isValidUTF8)

theorem eq_of_utf8EncodeChar {char other : Char}
    (same : String.utf8EncodeChar char = String.utf8EncodeChar other) : char = other := by
  have strings : String.ofList [char] = String.ofList [other] := by
    rw [← String.toByteArray_inj, String.toByteArray_ofList, String.toByteArray_ofList]
    simp [List.utf8Encode, same]
  simpa using congrArg String.toList strings

theorem toList_loop (bytes : ByteArray) (index : Nat) (seen : List UInt8) :
    ByteArray.toList.loop bytes index seen = seen.reverse ++ bytes.data.toList.drop index := by
  fun_induction ByteArray.toList.loop bytes index seen with
  | case1 index seen more ih =>
      have bound : index < bytes.data.toList.length := more
      have here : bytes.get! index = bytes.data.toList[index] := getElem!_pos bytes.data index more
      rw [ih, List.drop_eq_getElem_cons bound, here, List.reverse_cons, List.append_assoc]
      rfl
  | case2 index seen done =>
      have short : bytes.data.toList.length ≤ index := Nat.not_lt.mp done
      rw [List.drop_of_length_le short, List.append_nil]

theorem toUTF8_eq (text : String) :
    text.toUTF8 = ⟨(text.toList.flatMap String.utf8EncodeChar).toArray⟩ := by
  have encoded : text.toUTF8 = (text.toList.flatMap String.utf8EncodeChar).toByteArray :=
    String.utf8Encode_toList.symm
  rw [encoded, ByteArray.ext_iff, List.data_toByteArray]

theorem utf8_eq (text : String) : utf8 text = text.toList.flatMap String.utf8EncodeChar := by
  rw [utf8, toUTF8_eq, ByteArray.toList, toList_loop]
  simp

theorem utf8EncodeChar_of_mem {char : Char} {byte : UInt8} (member : byte ∈ String.utf8EncodeChar char)
    (small : byte < 0x80) : String.utf8EncodeChar char = [byte] := by
  have large (value : Nat) (bound : 128 ≤ value % 256) : ¬ UInt8.ofNat value < 0x80 := by
    rw [UInt8.lt_iff_toNat_lt, UInt8.toNat_ofNat']
    exact Nat.not_lt.mpr bound
  rw [String.utf8EncodeChar.eq_1] at member ⊢
  split
  · rename_i single
    rw [if_pos single, List.mem_singleton] at member
    rw [member]
  · rename_i several
    rw [if_neg several] at member
    refine absurd small ?_
    repeat' split at member
    all_goals
      simp only [List.mem_cons, List.not_mem_nil, or_false] at member
      rcases member with rfl | rfl | rfl | rfl <;> exact large _ (by omega)

theorem eq_of_mem_utf8EncodeChar {char ascii : Char} {byte : UInt8}
    (member : byte ∈ String.utf8EncodeChar char) (encoded : String.utf8EncodeChar ascii = [byte])
    (small : byte < 0x80) : char = ascii :=
  eq_of_utf8EncodeChar ((utf8EncodeChar_of_mem member small).trans encoded.symm)

theorem not_mem_encoding {text : List Char} {ascii : Char} {byte : UInt8} (absent : ascii ∉ text)
    (encoded : String.utf8EncodeChar ascii = [byte]) (small : byte < 0x80) :
    byte ∉ text.flatMap String.utf8EncodeChar := by
  intro member
  obtain ⟨char, listed, inside⟩ := List.mem_flatMap.mp member
  exact absent (eq_of_mem_utf8EncodeChar inside encoded small ▸ listed)

theorem eq_return_of_utf8EncodeChar {char : Char} {front : List UInt8}
    (ends : String.utf8EncodeChar char = front ++ [carriageReturn]) : char = '\r' ∧ front = [] := by
  have bound : front.length < (String.utf8EncodeChar char).length := by simp [ends]
  have last : (String.utf8EncodeChar char)[front.length] = carriageReturn := by simp [ends]
  have begins : (String.utf8EncodeChar char)[front.length].IsUTF8FirstByte := by
    rw [last]
    exact Or.inl rfl
  have alone := List.length_eq_zero_iff.mp (UInt8.isUTF8FirstByte_getElem_utf8EncodeChar.mp begins)
  refine ⟨eq_of_utf8EncodeChar ?_, alone⟩
  rw [ends, alone]
  rfl

theorem fromUTF8?_append_return (bytes : List UInt8) :
    String.fromUTF8? ⟨(bytes ++ [carriageReturn]).toArray⟩ =
      (String.fromUTF8? ⟨bytes.toArray⟩).map fun text => text ++ String.ofList ['\r'] := by
  refine Option.ext fun text => ?_
  rw [fromUTF8?_eq_some, Option.map_eq_some_iff]
  constructor
  · intro split
    rcases List.eq_nil_or_concat text.toList with nothing | ⟨front, last, ends⟩
    · simp [nothing] at split
    · rw [ends, List.concat_eq_append, List.flatMap_append, List.flatMap_singleton] at split
      rcases List.eq_nil_or_concat (String.utf8EncodeChar last) with nothing | ⟨early, byte, encoded⟩
      · exact absurd nothing String.utf8EncodeChar_ne_nil
      · rw [List.concat_eq_append] at encoded
        rw [encoded, ← List.append_assoc] at split
        obtain ⟨rest, same⟩ := List.append_inj' split rfl
        obtain rfl : carriageReturn = byte := List.head_eq_of_cons_eq same
        obtain ⟨rfl, rfl⟩ := eq_return_of_utf8EncodeChar encoded
        refine ⟨String.ofList front, fromUTF8?_eq_some.mpr ?_, ?_⟩
        · rw [String.toList_ofList, rest, List.append_nil]
        · rw [← String.toList_inj, ends]
          simp
  · rintro ⟨text, found, rfl⟩
    rw [fromUTF8?_eq_some] at found
    simp [found]
    rfl

theorem toOption_mapError {ε ε' α : Type} (change : ε → ε') (result : Except ε α) :
    (result.mapError change).toOption = result.toOption := by
  cases result <;> rfl

def content? (line : RawLine) : Option (Option Order) :=
  (item? line).map Except.toOption

theorem content?_append_return (bytes : List UInt8) :
    content? (.ok (bytes ++ [carriageReturn])) = content? (.ok bytes) := by
  simp only [content?, item?, fromUTF8?_append_return]
  cases String.fromUTF8? ⟨bytes.toArray⟩ with
  | none => rfl
  | some text =>
      have blank : (text ++ String.ofList ['\r']).toList.all Text.isBlank =
          text.toList.all Text.isBlank := by
        simp [Text.isBlank]
      have trailing : ∀ char ∈ ['\r'], Text.isJsonBlank char = true := by simp [Text.isJsonBlank]
      simp only [Option.map_some, blank]
      split
      · rfl
      · simp only [Option.map_some, toOption_mapError]
        rw [Order.parse_append_blanks text trailing]

def gather (bytes : List UInt8) : Gathered :=
  bytes.foldl Gathered.byte ⟨[], []⟩

theorem foldl_byte (bytes current : List UInt8) (lines : List RawLine) :
    bytes.foldl Gathered.byte ⟨current, lines⟩ =
      ⟨(bytes.foldl Gathered.byte ⟨current, []⟩).current,
        (bytes.foldl Gathered.byte ⟨current, []⟩).lines ++ lines⟩ := by
  induction bytes generalizing current lines with
  | nil => rfl
  | cons byte bytes ih =>
      simp only [List.foldl_cons, Gathered.byte]
      split
      · rw [ih [] (.ok (endLine current) :: lines), ih [] [.ok (endLine current)]]
        simp
      · exact ih (byte :: current) lines

theorem rawLines_eq (bytes : List UInt8) :
    rawLines [.bytes bytes] = (gather bytes).lines.reverse ++
      if (gather bytes).current.isEmpty then [] else [.ok (gather bytes).current.reverse] := by
  have gathered : [Piece.bytes bytes].foldl Gathered.piece ⟨[], []⟩ = gather bytes := rfl
  rw [rawLines, gathered, Gathered.finish]
  split <;> simp

/-- Where a source is cut into pieces makes no difference. -/
theorem rawLines_pieces (parts : List (List UInt8)) :
    rawLines (parts.map .bytes) = rawLines [.bytes parts.flatten] := by
  have fold (gathered : Gathered) : (parts.map Piece.bytes).foldl Gathered.piece gathered =
      parts.flatten.foldl Gathered.byte gathered := by
    induction parts generalizing gathered with
    | nil => rfl
    | cons part parts ih =>
        rw [List.map_cons, List.foldl_cons, ih, List.flatten_cons, List.foldl_append]
        rfl
  rw [rawLines, fold]
  rfl

theorem gather_of_not_mem {bytes : List UInt8} (absent : lineFeed ∉ bytes) :
    gather bytes = ⟨bytes.reverse, []⟩ := by
  have fold (gathered : Gathered) : bytes.foldl Gathered.byte gathered =
      ⟨bytes.reverse ++ gathered.current, gathered.lines⟩ := by
    induction bytes generalizing gathered with
    | nil => rfl
    | cons byte bytes ih =>
        obtain ⟨other, others⟩ := not_or.mp (mt List.mem_cons.mpr absent)
        rw [List.foldl_cons, ih others, Gathered.byte, if_neg (Ne.symm other)]
        simp
  rw [gather, fold, List.append_nil]

/-- A line feed ends a line, and what comes behind it begins anew. -/
theorem gather_append (first second : List UInt8) :
    gather (first ++ lineFeed :: second) =
      ⟨(gather second).current, (gather second).lines ++
        .ok (endLine (gather first).current) :: (gather first).lines⟩ := by
  rw [gather, List.foldl_append, List.foldl_cons]
  exact foldl_byte second [] _

theorem rawLines_append (first second : List UInt8) :
    rawLines [.bytes (first ++ lineFeed :: second)] =
      (gather first).lines.reverse ++ .ok (endLine (gather first).current) ::
        rawLines [.bytes second] := by
  rw [rawLines_eq, rawLines_eq, gather_append]
  simp

/-- A line holds the same at the end of a source and in front of a line feed. -/
theorem content?_endLine (current : List UInt8) :
    (content? (.ok (endLine current))).toList =
      (if current.isEmpty then [] else [.ok current.reverse]).filterMap content? := by
  cases current with
  | nil => rfl
  | cons last earlier =>
      simp only [endLine, List.isEmpty_cons, Bool.false_eq_true, if_false, List.filterMap_cons,
        List.filterMap_nil]
      split
      · rename_i returns
        rw [List.reverse_cons, returns, content?_append_return]
        cases content? (.ok earlier.reverse) <;> rfl
      · cases content? (.ok (last :: earlier).reverse) <;> rfl

def problem? : Except DeskError Order → Option DeskError
  | .error error => some error
  | .ok _ => none

def errors (bytes : List UInt8) : List DeskError :=
  (orders [.bytes bytes]).filterMap problem?

def contents (bytes : List UInt8) : List (Option Order) :=
  (orders [.bytes bytes]).map Except.toOption

theorem contents_eq (bytes : List UInt8) :
    contents bytes = (rawLines [.bytes bytes]).filterMap content? := by
  rw [contents, orders, List.map_filterMap]
  rfl

theorem contents_append (first second : List UInt8) :
    contents (first ++ lineFeed :: second) = contents first ++ contents second := by
  have last := content?_endLine (gather first).current
  rw [contents_eq, contents_eq, contents_eq, rawLines_append, rawLines_eq first]
  rw [List.filterMap_append, List.filterMap_append, ← last, List.filterMap_cons]
  cases content? (.ok (endLine (gather first).current)) <;> simp

theorem length_errors (bytes : List UInt8) : (errors bytes).length = (contents bytes).count none := by
  rw [errors, contents]
  induction orders [.bytes bytes] with
  | nil => rfl
  | cons item items ih => cases item <;> simp [List.filterMap_cons, problem?, Except.toOption, ih]

end Lines

namespace Desk

variable {settings : Settings} {desk : Desk}

/-! ## Orders one after another -/

def newReply (settings : Settings) (order : Order) : Option Reply :=
  ((ofSettings settings).handle? order).2.map Answer.reply

theorem handle?_of_unnamed (desk : Desk) {order : Order} (unnamed : order.id = "") :
    (desk.handle? order).2 = some .missingOrderId := by
  simp [handle?, Handler.accept, Handler.Progress.answer?, unnamed]

theorem handle?_of_named (idles : Idles settings desk) {order : Order} (named : order.id ≠ "") :
    (desk.handle? order).2 = some (order.answer settings.requestTimeout) := by
  obtain ⟨history, rests⟩ := rests_of_idles idles
  obtain ⟨call, cause, found, ended, answer⟩ := rests.exists_call named
  have progress : (desk.handler.accept desk.state order).2 =
      .processing order.id desk.state.calls.length := congrArg Prod.snd (rests.accept named)
  simp only [handle?, progress, Handler.Progress.answer?, found, ended, answer, Option.bind_eq_bind,
    Option.bind_some, Option.pure_def, Option.map_some]

/-- An idle desk answers, and as a new one does. -/
theorem handle?_of_idles (idles : Idles settings desk) (order : Order) :
    ∃ answer, (desk.handle? order).2 = some answer ∧
      newReply settings order = some answer.reply := by
  by_cases named : order.id = ""
  · refine ⟨_, handle?_of_unnamed desk named, ?_⟩
    rw [newReply, handle?_of_unnamed _ named, Option.map_some]
  · refine ⟨_, handle?_of_named idles named, ?_⟩
    rw [newReply, handle?_of_named .fresh named, Option.map_some]

theorem errors_process (desk : Desk) (items : List (Except DeskError Order)) :
    (desk.process items).errors = items.filterMap Lines.problem? := by
  induction items generalizing desk with
  | nil => rfl
  | cons item items ih => cases item <;> simp [List.filterMap_cons, process, Lines.problem?, ih]

theorem replies_process (idles : Idles settings desk) (items : List (Except DeskError Order)) :
    (desk.process items).replies.map some =
      (items.filterMap Except.toOption).map (newReply settings) := by
  induction items generalizing desk with
  | nil => rfl
  | cons item items ih =>
      cases item with
      | error error => simp [List.filterMap_cons, process, ih idles, Except.toOption]
      | ok order =>
          obtain ⟨answer, answered, same⟩ := handle?_of_idles idles order
          simp [process, answered, same, ih (idles.handled desk order), Except.toOption]

end Desk

namespace CommandLine

open Desk

/-- What the run of a file comes to: for each order it prints a line with the reply that the order gets
at a new desk, and for each line that holds none it tells what is wrong with the line. -/
structure Prints (settings : Settings) (bytes : List UInt8) (outcome : Outcome) : Prop where
  exitCode : outcome.exitCode = 0
  output : ∃ replies : List Reply, replies.map some =
      ((Lines.orders [.bytes bytes]).filterMap Except.toOption).map (newReply settings) ∧
    outcome.output = String.join (replies.map fun reply => reply.render ++ "\n")
  errors : outcome.errors = String.join ((Lines.errors bytes).map lineError)

theorem prints_runFile (settings : Settings) (bytes : List UInt8) :
    Prints settings bytes (runFile settings (some bytes)) :=
  ⟨rfl, ⟨((ofSettings settings).runPieces [.bytes bytes]).replies, replies_process .fresh _, rfl⟩,
    by simp only [runFile, runPieces, errors_process, Lines.errors]⟩

theorem orders_append (first second : List UInt8) :
    (Lines.orders [.bytes (first ++ Lines.lineFeed :: second)]).filterMap Except.toOption =
      (Lines.orders [.bytes first]).filterMap Except.toOption ++
        (Lines.orders [.bytes second]).filterMap Except.toOption := by
  have held (bytes : List UInt8) : (Lines.orders [.bytes bytes]).filterMap Except.toOption =
      (Lines.contents bytes).filterMap id := by
    rw [Lines.contents, List.filterMap_map]
    rfl
  rw [held, held, held, Lines.contents_append, List.filterMap_append]

theorem output_append (settings : Settings) (first second : List UInt8) :
    (runFile settings (some (first ++ Lines.lineFeed :: second))).output =
      (runFile settings (some first)).output ++ (runFile settings (some second)).output := by
  obtain ⟨replies, answers, output⟩ :=
    (prints_runFile settings (first ++ Lines.lineFeed :: second)).output
  obtain ⟨early, answers', output'⟩ := (prints_runFile settings first).output
  obtain ⟨late, answers'', output''⟩ := (prints_runFile settings second).output
  rw [orders_append, List.map_append, ← answers', ← answers'', ← List.map_append] at answers
  obtain rfl := List.map_inj_right (fun _ _ => Option.some.inj) |>.mp answers
  rw [output, output', output'', List.map_append, String.join_append]

theorem output_intercalate (settings : Settings) (lines : List (List UInt8)) :
    (runFile settings (some ([Lines.lineFeed].intercalate lines))).output =
      String.join (lines.map fun line => (runFile settings (some line)).output) := by
  induction lines with
  | nil => rfl
  | cons line lines ih =>
      cases lines with
      | nil => simp [List.intercalate]
      | cons next lines =>
          have split : [Lines.lineFeed].intercalate (line :: next :: lines) =
              line ++ Lines.lineFeed :: [Lines.lineFeed].intercalate (next :: lines) := by
            simp [List.intercalate]
          simp only [split, output_append, ih, List.map_cons, String.join_cons]

/-- Whatever is in a file, a run prints for each order the reply that it gets at a new desk, and tells
for each other line what is wrong with it. So a file of two parts, with a line feed in between, prints
what its parts print, and has as many errors as they have, and any file prints what each of its lines
prints on its own. -/
theorem runFile_concatenates (settings : Settings) :
    (∀ bytes, Prints settings bytes (runFile settings (some bytes))) ∧
      (∀ first second,
        (runFile settings (some (first ++ Lines.lineFeed :: second))).output =
            (runFile settings (some first)).output ++ (runFile settings (some second)).output ∧
          (Lines.errors (first ++ Lines.lineFeed :: second)).length =
            (Lines.errors first).length + (Lines.errors second).length) ∧
      ∀ lines, (runFile settings (some ([Lines.lineFeed].intercalate lines))).output =
        String.join (lines.map fun line => (runFile settings (some line)).output) := by
  refine ⟨prints_runFile settings, fun first second => ⟨output_append settings first second, ?_⟩,
    output_intercalate settings⟩
  rw [Lines.length_errors, Lines.length_errors, Lines.length_errors, Lines.contents_append,
    List.count_append]

/-- An order, a line that breaks off, and an order without an id. -/
def mixedFile : List UInt8 :=
  Lines.utf8 ("\x7b\"order_id\":\"o-1\",\"amount\":5\x7d\n" ++ "\x7b\"order_id\":\n" ++
    "\x7b\"amount\":7\x7d")

theorem runFile_concatenates_mixed :
    (runFile .usual (some mixedFile)).output =
        "\x7b\"status\":\"ok\",\"order_id\":\"o-1\",\"steps\":[" ++
          "\x7b\"name\":\"payment\",\"status\":\"ok\",\"duration_ms\":150\x7d," ++
          "\x7b\"name\":\"vendor\",\"status\":\"ok\",\"duration_ms\":200\x7d," ++
          "\x7b\"name\":\"courier\",\"status\":\"ok\",\"duration_ms\":100\x7d]\x7d\n" ++
        "\x7b\"status\":\"error\",\"order_id\":\"\",\"error\":" ++
          "\x7b\"kind\":\"bad_request\",\"message\":\"order_id is required\"\x7d\x7d\n" ∧
      (runFile .usual (some mixedFile)).errors =
        "Error reading order: JSON error: EOF while parsing a value at line 1 column 12\n" := by
  obtain ⟨_, ⟨replies, answers, output⟩, errors⟩ := (runFile_concatenates .usual).1 mixedFile
  have held : (Lines.orders [.bytes mixedFile]).filterMap Except.toOption =
      [.new "o-1" 5, .new "" 7] := by decide +kernel
  have first : newReply .usual (.new "o-1" 5) = some ((Order.new "o-1" 5).answer 2000).reply := by
    rw [newReply, handle?_of_named .fresh (by decide)]
    rfl
  have second : newReply .usual (.new "" 7) = some Answer.missingOrderId.reply := by
    rw [newReply, handle?_of_unnamed _ rfl]
    rfl
  rw [held, List.map_cons, List.map_singleton, first, second] at answers
  obtain rfl : replies = [((Order.new "o-1" 5).answer 2000).reply, Answer.missingOrderId.reply] :=
    List.map_inj_right (fun _ _ => Option.some.inj) |>.mp answers
  exact ⟨output.trans (by decide +kernel), errors.trans (by decide +kernel)⟩

end CommandLine

end OrderDesk
