import OrderDesk.Proofs.Transcripts

/-! A sink that fails keeps what it had room for. So what arrives of some replies is the front of their
lines, up to the limit of the sink, and where a line stands in front of the limit, at it or behind it
decides what becomes of the reply. In how many writes the text of a reply goes out makes no
difference. -/

namespace OrderDesk.Lines

def Sink.writeParts (sink : Sink) : List (List UInt8) → Sink × Except String Unit
  | [] => (sink, .ok ())
  | part :: parts =>
      match sink.write part with
      | (sink, .error message) => (sink, .error message)
      | (sink, .ok ()) => sink.writeParts parts

def Sink.writeReplyInParts (sink : Sink) (parts : List (List UInt8)) :
    Sink × Except DeskError Unit :=
  match sink.writeParts parts with
  | (sink, .error message) => (sink, .error (.jsonSink message))
  | (sink, .ok ()) =>
      match sink.write (utf8 "\n") with
      | (sink, .error message) => (sink, .error (.io message))
      | (sink, .ok ()) => (sink, .ok ())

def Sink.writeRepliesInParts (sink : Sink) :
    List (List (List UInt8)) → Sink × List (Except DeskError Unit)
  | [] => (sink, [])
  | parts :: others =>
      let (sink, result) := sink.writeReplyInParts parts
      let (sink, results) := sink.writeRepliesInParts others
      (sink, result :: results)

theorem write_nil (sink : Sink) : sink.write [] = (sink, .ok ()) := by
  obtain ⟨written, _ | room⟩ := sink
  · simp [Sink.write]
  · simp [Sink.write]

theorem write_append (sink : Sink) (first second : List UInt8) :
    sink.write (first ++ second) =
      match sink.write first with
      | (sink, .error message) => (sink, .error message)
      | (sink, .ok ()) => sink.write second := by
  obtain ⟨written, _ | room⟩ := sink
  · simp [Sink.write]
  · by_cases fits : first.length ≤ room
    · have whole : first.take room = first := List.take_of_length_le fits
      have sums : room - first.length - second.length = room - (first.length + second.length) := by
        omega
      have same : second.length ≤ room - first.length ↔ first.length + second.length ≤ room := by
        omega
      simp only [Sink.write, fits, if_true, List.take_append, whole, List.append_assoc, sums, same,
        List.length_append]
    · have nothing : room - first.length = 0 := by omega
      have nothing' : room - (first.length + second.length) = 0 := by omega
      have beyond : ¬ first.length + second.length ≤ room := by omega
      simp only [Sink.write, fits, if_false, List.take_append, nothing, nothing', beyond,
        List.length_append, List.take_zero, List.append_nil]

theorem writeParts_eq (sink : Sink) (parts : List (List UInt8)) :
    sink.writeParts parts = sink.write parts.flatten := by
  induction parts generalizing sink with
  | nil => exact (write_nil sink).symm
  | cons part parts ih =>
      rw [Sink.writeParts, List.flatten_cons, write_append]
      split
      · rfl
      · exact ih _

theorem writeReplyInParts_eq {parts : List (List UInt8)} {reply : Reply}
    (whole : parts.flatten = utf8 reply.render) (sink : Sink) :
    sink.writeReplyInParts parts = sink.writeReply reply := by
  rw [Sink.writeReplyInParts, writeParts_eq, whole]
  rfl

theorem writeRepliesInParts_eq {cut : List (List (List UInt8))} {replies : List Reply}
    (whole : List.Forall₂ (fun parts reply => parts.flatten = utf8 reply.render) cut replies)
    (sink : Sink) : sink.writeRepliesInParts cut = sink.writeReplies replies := by
  induction whole generalizing sink with
  | nil => rfl
  | cons first _ ih =>
      rw [Sink.writeRepliesInParts, Sink.writeReplies, writeReplyInParts_eq first]
      simp only [ih]

/-! ## Replies -/

def replyLine (reply : Reply) : List UInt8 :=
  utf8 reply.render ++ [lineFeed]

theorem transcript_cons (reply : Reply) (replies : List Reply) :
    transcript (reply :: replies) = replyLine reply ++ transcript replies :=
  List.flatMap_cons

theorem length_replyLine (reply : Reply) :
    (replyLine reply).length = (utf8 reply.render).length + 1 := by
  rw [replyLine, List.length_append, List.length_singleton]

theorem length_render_pos (reply : Reply) : 0 < (utf8 reply.render).length := by
  have brace : String.utf8EncodeChar '\x7b' = [0x7b] := rfl
  rw [utf8_eq, Reply.render, String.toList_ofList, Reply.text, Json.objectText]
  simp [brace]

def verdict (room : Nat) (reply : Reply) : Except DeskError Unit :=
  if (utf8 reply.render).length + 1 ≤ room then .ok ()
  else if (utf8 reply.render).length = room then .error (.io full)
  else .error (.jsonSink full)

theorem writeReply_eq (written : List UInt8) (room : Nat) (reply : Reply) :
    Sink.writeReply ⟨written, some room⟩ reply =
      (⟨written ++ (replyLine reply).take room, some (room - (replyLine reply).length)⟩,
        verdict room reply) := by
  rw [length_replyLine, replyLine, verdict, Sink.writeReply, utf8_lineFeed]
  generalize utf8 reply.render = text
  by_cases fits : text.length ≤ room
  · have whole : text.take room = text := List.take_of_length_le fits
    by_cases last : text.length + 1 ≤ room
    · have one : 1 ≤ room - text.length := by omega
      have feed : [lineFeed].take (room - text.length) = [lineFeed] := List.take_of_length_le one
      simp [Sink.write, fits, last, one, List.take_append, whole, feed]
      omega
    · have at_limit : text.length = room := by omega
      simp [Sink.write, whole, at_limit]
  · have beyond : ¬ text.length + 1 ≤ room := by omega
    have behind : text.length ≠ room := by omega
    have none_left : room - text.length = 0 := by omega
    have none_left' : room - (text.length + 1) = 0 := by omega
    simp [Sink.write, fits, beyond, behind, none_left, none_left', List.take_append]

/-- What becomes of every reply, and of the sink, once all are written. -/
theorem writeReplies_eq (written : List UInt8) (room : Nat) (replies : List Reply) :
    (Sink.writeReplies ⟨written, some room⟩ replies).1.written =
        written ++ (transcript replies).take room ∧
      ∀ place : Nat, (Sink.writeReplies ⟨written, some room⟩ replies).2[place]? =
        replies[place]?.map (verdict (room - (transcript (replies.take place)).length)) := by
  induction replies generalizing written room with
  | nil => exact ⟨by simp [Sink.writeReplies, transcript], fun place => by simp [Sink.writeReplies]⟩
  | cons reply replies ih =>
      obtain ⟨arrived, results⟩ := ih (written ++ (replyLine reply).take room)
        (room - (replyLine reply).length)
      have goes : Sink.writeReplies ⟨written, some room⟩ (reply :: replies) =
          ((Sink.writeReplies ⟨written ++ (replyLine reply).take room,
              some (room - (replyLine reply).length)⟩ replies).1,
            verdict room reply :: (Sink.writeReplies ⟨written ++ (replyLine reply).take room,
              some (room - (replyLine reply).length)⟩ replies).2) := by
        rw [Sink.writeReplies, writeReply_eq]
      rw [goes]
      refine ⟨?_, fun place => ?_⟩
      · rw [arrived, transcript_cons, List.take_append, List.append_assoc]
      · cases place with
        | zero => simp [transcript]
        | succ place =>
            rw [List.getElem?_cons_succ, results, List.getElem?_cons_succ, List.take_succ_cons,
              transcript_cons, List.length_append, Nat.sub_sub]

theorem length_writeReplies (sink : Sink) (replies : List Reply) :
    (sink.writeReplies replies).2.length = replies.length := by
  induction replies generalizing sink with
  | nil => rfl
  | cons reply replies ih => exact congrArg (· + 1) (ih _)

/-- A reply by the place of its text between the limit of the sink and the lines before it. -/
theorem verdict_iff (limit start : Nat) (reply : Reply) :
    let stop := start + (utf8 reply.render).length
    (verdict (limit - start) reply = .ok () ↔ stop + 1 ≤ limit) ∧
      (verdict (limit - start) reply = .error (.io full) ↔ stop = limit) ∧
      (verdict (limit - start) reply = .error (.jsonSink full) ↔ limit < stop) := by
  intro stop
  have some_text := length_render_pos reply
  rw [verdict]
  by_cases fits : stop + 1 ≤ limit
  · have room : (utf8 reply.render).length + 1 ≤ limit - start := by omega
    simp only [if_pos room, reduceCtorEq, false_iff, true_iff]
    omega
  · have no_room : ¬ (utf8 reply.render).length + 1 ≤ limit - start := by omega
    by_cases at_limit : stop = limit
    · have exactly : (utf8 reply.render).length = limit - start := by omega
      simp only [if_neg no_room, if_pos exactly, reduceCtorEq, false_iff, true_iff, Except.error.injEq]
      omega
    · have other : (utf8 reply.render).length ≠ limit - start := by omega
      simp only [if_neg no_room, if_neg other, reduceCtorEq, false_iff, true_iff, Except.error.injEq]
      omega

theorem transcript_append (first second : List Reply) :
    transcript (first ++ second) = transcript first ++ transcript second :=
  List.flatMap_append

theorem stop_lt_length_transcript {replies : List Reply} {place later : Nat} (before : place < later)
    {reply : Reply} (found : replies[place]? = some reply) :
    (transcript (replies.take place)).length + (utf8 reply.render).length <
      (transcript (replies.take later)).length := by
  obtain ⟨more, rfl⟩ : ∃ more, later = place + 1 + more := ⟨later - (place + 1), by omega⟩
  have line : transcript replies[place]?.toList = replyLine reply := by
    rw [found]
    exact List.flatMap_singleton _ _
  rw [List.take_add, transcript_append, List.take_add_one, transcript_append, line,
    List.length_append, List.length_append, length_replyLine]
  omega

/-- What arrives at a sink with a limit is the front of the lines up to the limit. A reply is written if
its line ends by then; if only its line feed is behind the limit, then the write of the line feed fails,
and otherwise that of its text. Nothing comes behind a reply that has failed, and it makes no difference
in what parts the texts go out. -/
theorem replies_cut_off (limit : Nat) (replies : List Reply) :
    let (sink, results) := Sink.writeReplies ⟨[], some limit⟩ replies
    sink.written = (transcript replies).take limit ∧ results.length = replies.length ∧
      (∀ place reply, replies[place]? = some reply →
        let stop := (transcript (replies.take place)).length + (utf8 reply.render).length
        (results[place]? = some (.ok ()) ↔ stop + 1 ≤ limit) ∧
          (results[place]? = some (.error (.io full)) ↔ stop = limit) ∧
          (results[place]? = some (.error (.jsonSink full)) ↔ limit < stop)) ∧
      (∀ place error, results[place]? = some (.error error) → ∀ later, place < later →
        results[later]? ≠ some (.ok ()) ∧
          (Sink.writeReplies ⟨[], some limit⟩ (replies.take later)).1.written = sink.written) ∧
      ∀ cut, List.Forall₂ (fun parts reply => parts.flatten = utf8 reply.render) cut replies →
        Sink.writeRepliesInParts ⟨[], some limit⟩ cut = (sink, results) := by
  obtain ⟨arrived, results⟩ := writeReplies_eq [] limit replies
  have judged {place : Nat} {reply : Reply} (found : replies[place]? = some reply) :=
    (verdict_iff limit (transcript (replies.take place)).length reply)
  refine ⟨arrived, length_writeReplies _ _, fun place reply found => ?_,
    fun place error failed later behind => ?_, fun cut whole => writeRepliesInParts_eq whole _⟩
  · simp only [results, found, Option.map_some, Option.some.injEq]
    exact judged found
  · rw [results, Option.map_eq_some_iff] at failed
    obtain ⟨reply, found, failed⟩ := failed
    have reached : limit ≤ (transcript (replies.take place)).length + (utf8 reply.render).length := by
      by_contra early
      have written := (judged found).1.mpr (by omega)
      rw [failed] at written
      cases written
    have stop := stop_lt_length_transcript behind found
    refine ⟨fun written => ?_, ?_⟩
    · rw [results, Option.map_eq_some_iff] at written
      obtain ⟨next, found', written⟩ := written
      have fits := (judged found').1.mp written
      omega
    · rw [(writeReplies_eq [] limit (replies.take later)).1, arrived]
      conv_rhs => rw [← List.take_append_drop later replies]
      rw [transcript_append, List.take_append_of_le_length (by omega)]

def terse : List Reply :=
  [.ok "" [], .ok "" [], .ok "" []]

/-- The limit is between the text of the second reply and its line feed. -/
theorem replies_cut_off_terse :
    let (sink, results) := Sink.writeReplies ⟨[], some 59⟩ terse
    results[0]? = some (.ok ()) ∧ results[1]? = some (.error (.io full)) ∧
      results[2]? = some (.error (.jsonSink full)) ∧
      sink.written = utf8 ("\x7b\"status\":\"ok\",\"order_id\":\"\"\x7d\n" ++
        "\x7b\"status\":\"ok\",\"order_id\":\"\"\x7d") := by
  obtain ⟨arrived, _, judged, _⟩ := replies_cut_off 59 terse
  refine ⟨(judged 0 _ rfl).1.mpr ?_, (judged 1 _ rfl).2.1.mpr ?_, (judged 2 _ rfl).2.2.mpr ?_,
    arrived.trans ?_⟩
  · decide +kernel
  · decide +kernel
  · decide +kernel
  · decide +kernel

end OrderDesk.Lines
