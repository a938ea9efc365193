import OrderDesk.Proofs.Members
import OrderDesk.Proofs.Pages
import OrderDesk.Proofs.Prints

/-! Replies that are written can be read again. Each one takes a single line, and what is read off the
line is the reply with its durations in whole milliseconds. So a reply that was read is written and
read without a change. -/

namespace OrderDesk

open Json

namespace Json

variable {σ : Type} {shape : Shape σ}

theorem Shape.views_of_find {view : String → σ → Value → Option σ} {name : String} {value : Value}
    {field : Field σ} (found : (shape.fields.find? fun field => field.name == name) = some field)
    (makes : ∀ gathered, Makes (field.read gathered) value (view name gathered value)) :
    shape.Views view (name, value) := by
  intro other same
  obtain rfl := Option.some.inj (found.symm.trans same)
  exact makes

theorem Shape.makes_finish {view : String → σ → Value → Option σ} {members : List (String × Value)}
    (views : ∀ entry ∈ members, shape.Views view entry ∧ (shape.strict = true ∨
      (shape.fields.find? fun field => field.name == entry.1).isSome = true)) {empty all : σ}
    (folds : members.foldlM (shape.step view) empty = some all)
    (complete : shape.complete? all = some all) {α : Type} (finish : σ → α) :
    Makes (fun text => do
      let (gathered, text) ← shape.read empty text
      return (finish gathered, text)) (.object members) (some (finish all)) := by
  have makes := Makes.map (shape.makes_read views empty) finish
  rwa [folds, Option.bind_some, complete, Option.map_some] at makes

theorem makes_readVariant {α : Type} (variants : List (String × α)) (name : String) :
    Makes (readVariant variants) (.text name)
      ((variants.find? fun variant => variant.1 == name).map Prod.snd) := by
  intro before text rest blank spelled _
  obtain ⟨written, meant, rfl, isText, rfl⟩ := spelled.exists_text
  rw [List.cons_append, readVariant, atValue_blank blank (by decide), if_pos rfl, List.append_assoc,
    List.singleton_append, scanText_of_spells isText]
  simp only [List.reverse_nil, List.nil_append, bind, Except.bind]
  cases variants.find? fun variant => variant.1 == String.ofList meant <;> rfl

end Json

/-- What is left of a duration that is shown in milliseconds. -/
def Duration.rounded (duration : Duration) : Duration :=
  .ofMillis duration.millis

def StepReport.rounded (report : StepReport) : StepReport :=
  { report with duration := report.duration.rounded }

def Reply.rounded (reply : Reply) : Reply :=
  { reply with steps := reply.steps.map StepReport.rounded }

def optionalMember (name text : String) : List (String × Value) :=
  if text.isEmpty then [] else [(name, .text text)]

theorem tells_optionalText (name text : String) :
    List.Forall₂ Tells (optionalText name text) (optionalMember name text) := by
  unfold optionalText optionalMember
  split
  · exact .nil
  · exact .cons (.mk name (spells_literal text)) .nil

theorem clean_optionalText (name text : String) :
    ∀ member ∈ optionalText name text, Clean member.2 := by
  unfold optionalText
  split
  · exact nofun
  · exact List.forall_mem_singleton.mpr (clean_literal text)

def StepReport.members (report : StepReport) : List (String × Value) :=
  [("name", .text report.name), ("status", .text report.status.name),
    ("duration_ms", .integer false report.duration.millis)] ++ optionalMember "detail" report.detail

theorem StepReport.spells_text (report : StepReport) :
    Spells report.text (.object report.members) :=
  spells_objectText (.cons (.mk _ (spells_literal report.name))
    (.cons (.mk _ (spells_literal report.status.name))
      (.cons (.mk _ (spells_naturalText report.duration.millis)) (tells_optionalText _ _))))

theorem StepReport.clean_text (report : StepReport) : Clean report.text := by
  refine clean_objectText (List.forall_mem_append.mpr ⟨?_, clean_optionalText _ _⟩)
  simp [clean_literal, clean_naturalText, StepStatus.text]

def Refusal.members (refusal : Refusal) : List (String × Value) :=
  [("kind", .text refusal.kind)] ++ optionalMember "message" refusal.message

theorem Refusal.spells_text (refusal : Refusal) : Spells refusal.text (.object refusal.members) :=
  spells_objectText (.cons (.mk _ (spells_literal refusal.kind)) (tells_optionalText _ _))

theorem Refusal.clean_text (refusal : Refusal) : Clean refusal.text := by
  refine clean_objectText (List.forall_mem_append.mpr ⟨?_, clean_optionalText _ _⟩)
  simp [clean_literal]

namespace Reply

def stepsMember (reply : Reply) : List (String × Value) :=
  if reply.steps.isEmpty then []
  else [("steps", .list (reply.steps.map fun report => .object report.members))]

def errorMember (reply : Reply) : List (String × Value) :=
  match reply.error with
  | some refusal => [("error", .object refusal.members)]
  | none => []

def members (reply : Reply) : List (String × Value) :=
  [("status", .text reply.status.name), ("order_id", .text reply.orderId)] ++ reply.stepsMember ++
    reply.errorMember

theorem spells_text (reply : Reply) : Spells reply.text (.object reply.members) := by
  have steps : Spells (listText (reply.steps.map StepReport.text))
      (.list (reply.steps.map fun report => .object report.members)) := by
    refine spells_listText ?_
    rw [List.forall₂_map_left_iff, List.forall₂_map_right_iff, List.forall₂_same]
    exact fun report _ => report.spells_text
  have base : List.Forall₂ Tells
      [("status", reply.status.text), ("order_id", literal reply.orderId)]
      [("status", .text reply.status.name), ("order_id", .text reply.orderId)] :=
    .cons (.mk _ (spells_literal _)) (.cons (.mk _ (spells_literal _)) .nil)
  have stepsTell : List.Forall₂ Tells
      (if reply.steps.isEmpty then [] else [("steps", listText (reply.steps.map StepReport.text))])
      reply.stepsMember := by
    rw [stepsMember]
    split
    · exact .nil
    · exact .cons (.mk _ steps) .nil
  have errorTells : List.Forall₂ Tells
      (match reply.error with
        | some refusal => [("error", refusal.text)]
        | none => []) reply.errorMember := by
    rw [errorMember]
    split
    · exact .cons (.mk _ (Refusal.spells_text _)) .nil
    · exact .nil
  exact spells_objectText (List.rel_append (List.rel_append base stepsTell) errorTells)

theorem clean_text (reply : Reply) : Clean reply.text := by
  have steps : Clean (listText (reply.steps.map StepReport.text)) := by
    refine clean_listText fun element listed => ?_
    obtain ⟨report, _, rfl⟩ := List.mem_map.mp listed
    exact report.clean_text
  refine clean_objectText (List.forall_mem_append.mpr ⟨List.forall_mem_append.mpr ⟨?_, ?_⟩, ?_⟩)
  · simp [clean_literal, OrderStatus.text]
  · split
    · exact nofun
    · exact List.forall_mem_singleton.mpr steps
  · split
    · exact List.forall_mem_singleton.mpr (Refusal.clean_text _)
    · exact nofun

end Reply

theorem getD_unless_empty (text : String) :
    (if text.isEmpty then none else some text).getD "" = text := by
  split
  · rename_i empty
    exact (String.isEmpty_iff.mp empty).symm
  · rfl

theorem StepStatus.makes_read (status : StepStatus) : Makes read (.text status.name) (some status) := by
  have makes := makes_readVariant names status.name
  cases status <;> exact makes

theorem OrderStatus.makes_read (status : OrderStatus) :
    Makes read (.text status.name) (some status) := by
  have makes := makes_readVariant names status.name
  cases status <;> exact makes

theorem optionalMember_eq {name text : String} {entry : String × Value}
    (member : entry ∈ optionalMember name text) : entry = (name, .text text) := by
  unfold optionalMember at member
  split at member
  · cases member
  · exact List.mem_singleton.mp member

namespace StepReport

def fill (report : StepReport) (name : String) (draft : Draft) (_ : Value) : Option Draft :=
  if name = "name" then some { draft with name := some report.name }
  else if name = "status" then some { draft with status := some report.status }
  else if name = "duration_ms" then
    some { draft with duration := some (.ofNat report.duration.millis) }
  else some { draft with detail := some report.detail }

theorem views_members {report : StepReport} (fits : report.duration.millis < UInt64.size) :
    ∀ entry ∈ report.members, shape.Views report.fill entry ∧ (shape.strict = true ∨
      (shape.fields.find? fun field => field.name == entry.1).isSome = true) := by
  have duration : (Value.integer false report.duration.millis).unsigned? =
      some (.ofNat report.duration.millis) := by
    rw [Value.unsigned?_eq_some, UInt64.toNat_ofNat', Nat.mod_eq_of_lt fits]
  intro entry member
  rcases List.mem_append.mp member with fixed | optional
  · simp only [List.mem_cons, List.not_mem_nil, or_false] at fixed
    rcases fixed with rfl | rfl | rfl
    · exact ⟨Shape.views_of_find rfl fun draft => Makes.map (makes_readText (.text report.name))
        fun name => { draft with name := some name }, .inr rfl⟩
    · exact ⟨Shape.views_of_find rfl fun draft => Makes.map report.status.makes_read
        fun status => { draft with status := some status }, .inr rfl⟩
    · refine ⟨Shape.views_of_find rfl fun draft => ?_, .inr rfl⟩
      have makes := makes_readUnsigned (.integer false report.duration.millis)
      rw [duration] at makes
      exact Makes.map makes fun duration => { draft with duration := some duration }
  · obtain rfl := optionalMember_eq optional
    exact ⟨Shape.views_of_find rfl fun draft => Makes.map (makes_readText (.text report.detail))
      fun detail => { draft with detail := some detail }, .inr rfl⟩

theorem foldlM_members (report : StepReport) :
    report.members.foldlM (shape.step report.fill) {} = some {
      name := some report.name
      status := some report.status
      duration := some (.ofNat report.duration.millis)
      detail := if report.detail.isEmpty then none else some report.detail } := by
  rw [members, optionalMember]
  split
  · rfl
  · rfl

theorem makes_read {report : StepReport} (fits : report.duration.millis < UInt64.size) :
    Makes read (.object report.members) (some report.rounded) := by
  have makes := Shape.makes_finish (views_members fits) (foldlM_members report) rfl Draft.finish
  have millis : (UInt64.ofNat report.duration.millis).toNat = report.duration.millis := by
    rw [UInt64.toNat_ofNat', Nat.mod_eq_of_lt fits]
  simp only [Draft.finish, Option.getD_some, millis, getD_unless_empty] at makes
  exact makes

end StepReport

namespace Refusal

def fill (refusal : Refusal) (name : String) (draft : Draft) (_ : Value) : Option Draft :=
  if name = "kind" then some { draft with kind := some refusal.kind }
  else some { draft with message := some refusal.message }

theorem views_members (refusal : Refusal) :
    ∀ entry ∈ refusal.members, shape.Views refusal.fill entry ∧ (shape.strict = true ∨
      (shape.fields.find? fun field => field.name == entry.1).isSome = true) := by
  intro entry member
  rcases List.mem_append.mp member with fixed | optional
  · obtain rfl := List.mem_singleton.mp fixed
    exact ⟨Shape.views_of_find rfl fun draft => Makes.map (makes_readText (.text refusal.kind))
      fun kind => { draft with kind := some kind }, .inr rfl⟩
  · obtain rfl := optionalMember_eq optional
    exact ⟨Shape.views_of_find rfl fun draft => Makes.map (makes_readText (.text refusal.message))
      fun message => { draft with message := some message }, .inr rfl⟩

theorem foldlM_members (refusal : Refusal) :
    refusal.members.foldlM (shape.step refusal.fill) {} = some {
      kind := some refusal.kind
      message := if refusal.message.isEmpty then none else some refusal.message } := by
  rw [members, optionalMember]
  split
  · rfl
  · rfl

theorem makes_read (refusal : Refusal) : Makes read (.object refusal.members) (some refusal) := by
  have makes := Shape.makes_finish (views_members refusal) (foldlM_members refusal) rfl Draft.finish
  simp only [Draft.finish, Option.getD_some, getD_unless_empty] at makes
  exact makes

end Refusal

namespace Reply

def fill (reply : Reply) (name : String) (draft : Draft) (_ : Value) : Option Draft :=
  if name = "status" then some { draft with status := some reply.status }
  else if name = "order_id" then some { draft with orderId := some reply.orderId }
  else if name = "steps" then some { draft with steps := some reply.rounded.steps }
  else some { draft with error := some reply.error }

theorem makes_steps {reports : List StepReport}
    (fits : ∀ report ∈ reports, report.duration.millis < UInt64.size) :
    Makes (readList StepReport.read) (.list (reports.map fun report => .object report.members))
      (some (reports.map StepReport.rounded)) := by
  refine makes_readList ?_
  rw [List.forall₂_map_left_iff, List.forall₂_map_right_iff, List.forall₂_same]
  exact fun report member => StepReport.makes_read (fits report member)

theorem views_members {reply : Reply}
    (fits : ∀ report ∈ reply.steps, report.duration.millis < UInt64.size) :
    ∀ entry ∈ reply.members, shape.Views reply.fill entry ∧ (shape.strict = true ∨
      (shape.fields.find? fun field => field.name == entry.1).isSome = true) := by
  intro entry member
  rcases List.mem_append.mp member with front | error
  · rcases List.mem_append.mp front with fixed | steps
    · simp only [List.mem_cons, List.not_mem_nil, or_false] at fixed
      rcases fixed with rfl | rfl
      · exact ⟨Shape.views_of_find rfl fun draft => Makes.map reply.status.makes_read
          fun status => { draft with status := some status }, .inr rfl⟩
      · exact ⟨Shape.views_of_find rfl fun draft => Makes.map (makes_readText (.text reply.orderId))
          fun orderId => { draft with orderId := some orderId }, .inr rfl⟩
    · unfold stepsMember at steps
      split at steps
      · cases steps
      · obtain rfl := List.mem_singleton.mp steps
        exact ⟨Shape.views_of_find rfl fun draft => Makes.map (makes_steps fits)
          fun steps => { draft with steps := some steps }, .inr rfl⟩
  · unfold errorMember at error
    split at error
    · rename_i refusal given
      obtain rfl := List.mem_singleton.mp error
      refine ⟨Shape.views_of_find rfl fun draft => ?_, .inr rfl⟩
      have filled : reply.fill "error" draft (.object refusal.members) =
          some { draft with error := some (some refusal) } := by
        rw [← given]
        rfl
      rw [filled]
      exact Makes.map (makes_readOptional (Refusal.makes_read refusal))
        fun error => { draft with error := some error }
    · cases error

theorem foldlM_members (reply : Reply) :
    reply.members.foldlM (shape.step reply.fill) {} = some {
      status := some reply.status
      orderId := some reply.orderId
      steps := if reply.steps.isEmpty then none else some reply.rounded.steps
      error := if reply.error.isNone then none else some reply.error } := by
  obtain ⟨status, orderId, steps, error⟩ := reply
  cases steps <;> cases error <;> rfl

theorem makes_read {reply : Reply}
    (fits : ∀ report ∈ reply.steps, report.duration.millis < UInt64.size) :
    Makes read (.object reply.members) (some reply.rounded) := by
  have makes := Shape.makes_finish (views_members fits) (foldlM_members reply) rfl Draft.finish
  have steps : (if reply.steps.isEmpty then none else some reply.rounded.steps).getD [] =
      reply.rounded.steps := by
    cases given : reply.steps <;> simp [rounded, given]
  have error : (if reply.error.isNone then none else some reply.error).getD none = reply.error := by
    cases reply.error <;> rfl
  simp only [Draft.finish, Option.getD_some, steps, error] at makes
  exact makes

/-- A reply comes back with its durations in whole milliseconds. -/
theorem parse_render {reply : Reply}
    (fits : ∀ report ∈ reply.steps, report.duration.millis < UInt64.size) :
    parse reply.render = .ok reply.rounded := by
  have read := toOption_readAll (makes_read fits) isBlank_nil reply.spells_text isBlank_nil
  rw [List.nil_append, List.append_nil] at read
  rw [parse, render, String.toList_ofList]
  exact toOption_eq_some.mp read

end Reply

namespace Lines

def transcript (replies : List Reply) : List UInt8 :=
  replies.flatMap fun reply => utf8 reply.render ++ [lineFeed]

theorem utf8_lineFeed : utf8 "\n" = [lineFeed] := by
  rw [utf8_eq]
  rfl

theorem written_write {sink : Sink} {bytes : List UInt8} (succeeded : (sink.write bytes).2 = .ok ()) :
    (sink.write bytes).1.written = sink.written ++ bytes := by
  obtain ⟨written, _ | room⟩ := sink
  · rfl
  · by_cases enough : bytes.length ≤ room
    · exact congrArg (written ++ ·) (List.take_of_length_le enough)
    · simp [Sink.write, enough] at succeeded

theorem written_writeReply {sink : Sink} {reply : Reply}
    (succeeded : (sink.writeReply reply).2 = .ok ()) :
    (sink.writeReply reply).1.written = sink.written ++ (utf8 reply.render ++ [lineFeed]) := by
  unfold Sink.writeReply at succeeded ⊢
  split at succeeded
  · cases succeeded
  · rename_i after first
    split at succeeded
    · cases succeeded
    · rename_i last second
      have line : after.written = sink.written ++ utf8 reply.render := by
        have written := @written_write sink (utf8 reply.render) (by rw [first])
        rwa [first] at written
      have feed : last.written = after.written ++ utf8 "\n" := by
        have written := @written_write after (utf8 "\n") (by rw [second])
        rwa [second] at written
      rw [feed, line, utf8_lineFeed, List.append_assoc]

theorem writeReply_of_unbounded {sink : Sink} (unbounded : sink.room = none) (reply : Reply) :
    ∃ after : Sink, sink.writeReply reply = (after, .ok ()) ∧ after.room = none := by
  obtain ⟨written, room⟩ := sink
  cases unbounded
  exact ⟨_, rfl, rfl⟩

theorem ok_of_mem_writeReplies {sink : Sink} (unbounded : sink.room = none) {replies : List Reply}
    {result : Except DeskError Unit} (member : result ∈ (sink.writeReplies replies).2) :
    result = .ok () := by
  induction replies generalizing sink with
  | nil => cases member
  | cons reply replies ih =>
      obtain ⟨after, goes, unbounded⟩ := writeReply_of_unbounded unbounded reply
      simp only [Sink.writeReplies, goes] at member
      rcases List.mem_cons.mp member with rfl | later
      · rfl
      · exact ih unbounded later

theorem written_writeReplies {sink : Sink} {replies : List Reply}
    (succeeded : ∀ result ∈ (sink.writeReplies replies).2, result = .ok ()) :
    (sink.writeReplies replies).1.written = sink.written ++ transcript replies := by
  induction replies generalizing sink with
  | nil => simp [Sink.writeReplies, transcript]
  | cons reply replies ih =>
      have goes : sink.writeReplies (reply :: replies) =
          (((sink.writeReply reply).1.writeReplies replies).1,
            (sink.writeReply reply).2 :: ((sink.writeReply reply).1.writeReplies replies).2) := rfl
      rw [goes] at succeeded ⊢
      obtain ⟨first, others⟩ := List.forall_mem_cons.mp succeeded
      rw [ih others, written_writeReply first, List.append_assoc]
      rfl

theorem splitOn_transcript (replies : List Reply) :
    (transcript replies).splitOn lineFeed = (replies.map fun reply => utf8 reply.render) ++ [[]] := by
  induction replies with
  | nil => rfl
  | cons reply replies ih =>
      have clean : Clean reply.render.toList := by
        rw [Reply.render, String.toList_ofList]
        exact reply.clean_text
      have absent : lineFeed ∉ utf8 reply.render := by
        rw [utf8_eq]
        exact not_mem_encoding (clean.not_mem (by decide : '\n'.toNat < 0x20)) (by decide) (by decide)
      have whole : transcript (reply :: replies) =
          utf8 reply.render ++ lineFeed :: transcript replies := by simp [transcript]
      rw [whole, List.splitOn_append_cons_self_of_not_mem absent, ih]
      rfl

theorem fromUTF8?_transcript (replies : List Reply) :
    String.fromUTF8? ⟨(transcript replies).toArray⟩ =
      some (String.join (replies.map fun reply => reply.render ++ "\n")) := by
  have each (reply : Reply) : utf8 reply.render ++ [lineFeed] =
      (reply.render ++ "\n").toList.flatMap String.utf8EncodeChar := by
    rw [← utf8_lineFeed, utf8_eq, utf8_eq, String.toList_append, List.flatMap_append]
  rw [fromUTF8?_eq_some, String.toList_join, List.flatMap_map, List.flatMap_assoc, transcript]
  simp only [each]

end Lines

/-! ## Replies that were read -/

namespace Json

variable {α σ : Type}

theorem readMembers_keeps {keeps : σ → Prop} {member : String → σ → Reader σ}
    (kept : ∀ key gathered text made rest, keeps gathered →
      member key gathered text = .ok (made, rest) → keeps made) {fuel : Nat} {first : Bool}
    {gathered all : σ} {text rest : List Char} (start : keeps gathered)
    (succeeded : readMembers member fuel first gathered text = .ok (all, rest)) : keeps all := by
  induction fuel generalizing first gathered text with
  | zero => cases succeeded
  | succ fuel ih =>
      simp only [readMembers] at succeeded
      obtain ⟨next, _, goes⟩ := bind_eq_ok.mp succeeded
      cases next with
      | none =>
          obtain ⟨rfl, _⟩ := Prod.mk.inj (Except.ok.inj goes)
          exact start
      | some entry =>
          obtain ⟨⟨grown, later⟩, read, remain⟩ := bind_eq_ok.mp goes
          exact ih (kept _ _ _ _ _ start read) remain

theorem readElements_all {good : α → Prop} {read : Reader α}
    (each : ∀ text value rest, read text = .ok (value, rest) → good value) {fuel : Nat} {first : Bool}
    {values : List α} {text rest : List Char}
    (succeeded : readElements read fuel first text = .ok (values, rest)) :
    ∀ value ∈ values, good value := by
  induction fuel generalizing first text values rest with
  | zero => cases succeeded
  | succ fuel ih =>
      simp only [readElements] at succeeded
      obtain ⟨next, _, goes⟩ := bind_eq_ok.mp succeeded
      cases next with
      | none =>
          obtain ⟨rfl, _⟩ := Prod.mk.inj (Except.ok.inj goes)
          exact List.forall_mem_nil _
      | some behind =>
          obtain ⟨⟨value, later⟩, read, remain⟩ := bind_eq_ok.mp goes
          obtain ⟨⟨others, _⟩, found, done⟩ := bind_eq_ok.mp remain
          obtain ⟨rfl, _⟩ := Prod.mk.inj (Except.ok.inj done)
          exact List.forall_mem_cons.mpr ⟨each _ _ _ read, ih found⟩

namespace Shape

variable {shape : Shape σ} {keeps : σ → Prop}

theorem readFields_keeps {fields : List (Field σ)}
    (kept : ∀ field ∈ fields, ∀ gathered text made rest, keeps gathered →
      field.read gathered text = .ok (made, rest) → keeps made) {index : Nat} {gathered all : σ}
    {text rest : List Char} (start : keeps gathered)
    (succeeded : readFields shape fields index gathered text = .ok (all, rest)) : keeps all := by
  induction fields generalizing index gathered text with
  | nil =>
      obtain ⟨rfl, _⟩ := Prod.mk.inj (Except.ok.inj succeeded)
      exact start
  | cons field fields ih =>
      obtain ⟨first, others⟩ := List.forall_mem_cons.mp kept
      simp only [readFields] at succeeded
      obtain ⟨next, _, goes⟩ := bind_eq_ok.mp succeeded
      cases next with
      | none =>
          simp only at goes
          split at goes
          · cases goes
          · exact ih others start goes
      | some behind =>
          obtain ⟨⟨grown, later⟩, read, remain⟩ := bind_eq_ok.mp goes
          exact ih others (first _ _ _ _ start read) remain

/-- What every field keeps is kept by the whole record, whether it is an object or a list. -/
theorem read_keeps (kept : ∀ field ∈ shape.fields, ∀ gathered text made rest, keeps gathered →
      field.read gathered text = .ok (made, rest) → keeps made) {empty all : σ}
    {text rest : List Char} (start : keeps empty)
    (succeeded : shape.read empty text = .ok (all, rest)) : keeps all := by
  have member (key : String) (gathered : σ) (text : List Char) (made : σ) (rest : List Char)
      (before : keeps gathered) (read : shape.member key gathered text = .ok (made, rest)) :
      keeps made := by
    unfold Shape.member at read
    split at read
    · rename_i field found
      split at read
      · cases read
      · obtain ⟨later, _, read⟩ := bind_eq_ok.mp read
        exact kept field (List.mem_of_find?_eq_some found) _ _ _ _ before read
    · split at read
      · cases read
      · obtain ⟨later, _, read⟩ := bind_eq_ok.mp read
        obtain ⟨behind, _, done⟩ := bind_eq_ok.mp read
        obtain ⟨rfl, _⟩ := Prod.mk.inj (Except.ok.inj done)
        exact before
  rw [Shape.read, atValue] at succeeded
  split at succeeded
  · cases succeeded
  · split at succeeded
    · obtain ⟨⟨gathered, middle⟩, members, done⟩ := bind_eq_ok.mp succeeded
      simp only at done
      split at done
      · cases done
      · obtain ⟨behind, _, same⟩ := bind_eq_ok.mp done
        obtain ⟨rfl, _⟩ := Prod.mk.inj (Except.ok.inj same)
        exact readMembers_keeps member start members
    · split at succeeded
      · obtain ⟨⟨gathered, middle⟩, fields, done⟩ := bind_eq_ok.mp succeeded
        obtain ⟨behind, _, same⟩ := bind_eq_ok.mp done
        obtain ⟨rfl, _⟩ := Prod.mk.inj (Except.ok.inj same)
        exact readFields_keeps kept start fields
      · cases succeeded

end Shape

end Json

def StepReport.IsWhole (report : StepReport) : Prop :=
  report.duration.millis < UInt64.size ∧ report.rounded = report

theorem StepReport.isWhole_of_read {report : StepReport} {text rest : List Char}
    (succeeded : read text = .ok (report, rest)) : report.IsWhole := by
  obtain ⟨⟨draft, later⟩, _, done⟩ := bind_eq_ok.mp succeeded
  obtain ⟨rfl, _⟩ := Prod.mk.inj (Except.ok.inj done)
  have millis := Duration.millis_ofMillis (draft.duration.getD 0).toNat
  refine ⟨?_, ?_⟩
  · rw [Draft.finish, millis]
    exact (draft.duration.getD 0).toNat_lt
  · rw [rounded, Draft.finish, Duration.rounded, millis]

theorem isWhole_of_readList {reports : List StepReport} {text rest : List Char}
    (succeeded : readList StepReport.read text = .ok (reports, rest)) :
    ∀ report ∈ reports, report.IsWhole := by
  rw [readList, atValue] at succeeded
  split at succeeded
  · cases succeeded
  · split at succeeded
    · obtain ⟨⟨elements, later⟩, found, done⟩ := bind_eq_ok.mp succeeded
      obtain ⟨_, _, same⟩ := bind_eq_ok.mp done
      obtain ⟨rfl, _⟩ := Prod.mk.inj (Except.ok.inj same)
      exact readElements_all (fun _ _ _ => StepReport.isWhole_of_read) found
    · cases succeeded

namespace Reply

theorem isWhole_of_parse {text : String} {reply : Reply} (parsed : parse text = .ok reply) :
    ∀ report ∈ reply.steps, report.IsWhole := by
  obtain ⟨rest, read, _⟩ := readAll_eq_ok.mp parsed
  obtain ⟨⟨draft, later⟩, found, done⟩ := bind_eq_ok.mp read
  obtain ⟨rfl, _⟩ := Prod.mk.inj (Except.ok.inj done)
  -- Only one field reads steps, and it rounds their durations.
  have kept : ∀ field ∈ shape.fields, ∀ gathered text made rest,
      (∀ steps ∈ gathered.steps, ∀ report ∈ steps, report.IsWhole) →
      field.read gathered text = .ok (made, rest) →
      ∀ steps ∈ made.steps, ∀ report ∈ steps, report.IsWhole := by
    simp only [shape, List.forall_mem_cons]
    refine ⟨?_, ?_, ?_, ?_, List.forall_mem_nil _⟩ <;>
      intro gathered text made rest before succeeded <;>
      obtain ⟨⟨value, later⟩, found, done⟩ := bind_eq_ok.mp succeeded <;>
      obtain ⟨rfl, _⟩ := Prod.mk.inj (Except.ok.inj done)
    · exact before
    · exact before
    · rintro _ ⟨⟩
      exact isWhole_of_readList found
    · exact before
  have whole := Shape.read_keeps kept (by rintro _ ⟨⟩) found
  intro report member
  cases given : draft.steps with
  | none => simp [Draft.finish, given] at member
  | some steps => exact whole steps given report (by simpa [Draft.finish, given] using member)

theorem rounded_of_isWhole {reply : Reply} (whole : ∀ report ∈ reply.steps, report.IsWhole) :
    reply.rounded = reply := by
  have steps : reply.steps.map StepReport.rounded = reply.steps :=
    (List.map_congr_left fun report member => (whole report member).2).trans (List.map_id _)
  rw [rounded, steps]

theorem parse_render_of_parse {text : String} {reply : Reply} (parsed : parse text = .ok reply) :
    parse reply.render = .ok reply := by
  have whole := isWhole_of_parse parsed
  rw [parse_render fun report member => (whole report member).1, rounded_of_isWhole whole]

end Reply

namespace Lines

/-- Replies that are written, without a failure of the sink, come back: what is added to the sink is
text in UTF-8, every reply has a line of its own, and what is read off the line is the reply with its
durations in whole milliseconds. A reply that was read comes back as it is. -/
theorem writeReplies_returns (sink : Sink) (replies : List Reply)
    (fits : ∀ reply ∈ replies, ∀ report ∈ reply.steps, report.duration.millis < UInt64.size) :
    (sink.room = none → ∀ result ∈ (sink.writeReplies replies).2, result = .ok ()) ∧
      ((∀ result ∈ (sink.writeReplies replies).2, result = .ok ()) →
        ∃ added, (sink.writeReplies replies).1.written = sink.written ++ added ∧
          (String.fromUTF8? ⟨added.toArray⟩).isSome = true ∧
          ∃ lines : List String, added.splitOn lineFeed = lines.map utf8 ++ [[]] ∧
            List.Forall₂ (fun line reply => Reply.parse line = .ok reply.rounded) lines replies) ∧
      ∀ text reply, Reply.parse text = .ok reply → Reply.parse reply.render = .ok reply := by
  refine ⟨fun unbounded _ => ok_of_mem_writeReplies unbounded, fun succeeded => ?_,
    fun _ _ => Reply.parse_render_of_parse⟩
  refine ⟨_, written_writeReplies succeeded, ?_, replies.map Reply.render, ?_, ?_⟩
  · rw [fromUTF8?_transcript]
    rfl
  · rw [splitOn_transcript, List.map_map]
    rfl
  · rw [List.forall₂_map_left_iff, List.forall₂_same]
    exact fun reply member => Reply.parse_render (fits reply member)

/-- Two replies, one of which was refused in the middle of a step. -/
def dispatches : List Reply :=
  [.failed "\n" [⟨"a\"b", .error, ⟨1999⟩, "declined"⟩, .pending "💡"] "canceled" "",
    .ok "" []]

theorem writeReplies_returns_dispatches :
    (∀ result ∈ (Sink.writeReplies ⟨[], none⟩ dispatches).2, result = .ok ()) ∧
      ∃ lines : List String,
        (Sink.writeReplies ⟨[], none⟩ dispatches).1.written.splitOn lineFeed =
          lines.map utf8 ++ [[]] ∧
        List.Forall₂ (fun line reply => Reply.parse line = .ok reply.rounded) lines dispatches := by
  have fits : ∀ reply ∈ dispatches, ∀ report ∈ reply.steps,
      report.duration.millis < UInt64.size := by
    decide
  obtain ⟨succeeds, returns, _⟩ := writeReplies_returns ⟨[], none⟩ dispatches fits
  obtain ⟨added, written, _, lines, split, read⟩ := returns (succeeds rfl)
  rw [List.nil_append] at written
  exact ⟨succeeds rfl, lines, written ▸ split, read⟩

end Lines

end OrderDesk
