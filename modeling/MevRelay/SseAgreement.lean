import MevRelay.SseLoop
import MevRelay.Text.Strip

/-!
# The two parsers of event frames

The repository has two parsers for the same frames: `process_sse_line` works line by line,
`SseByteStream::parse_event` collects the type and the data of a whole frame first. They differ on
frames that the format allows: the first takes the type away with the first data line, so it finds no
event if the data comes before the type, and only a part of the data if it has several lines.

`parsers_agree_iff` says on which frames they agree, whatever JSON deserialises to. A frame matters
only through its *fields*: what its `event: ` and `data: ` lines say, in their order.
-/

namespace MevRelay

open Strip

/-! ## Space around JSON -/

namespace Text

/-- The four characters of insignificant whitespace. -/
def isJsonSpace (c : Char) : Bool := c == ' ' || c == '\t' || c == '\n' || c == '\r'

theorem isWhitespace_of_isJsonSpace (c : Char) (h : isJsonSpace c) : isWhitespace c := by
  simp only [isJsonSpace, Bool.or_eq_true, beq_iff_eq] at h
  rcases h with ((rfl | rfl) | rfl) | rfl <;> rfl

theorem trim_eq_strip (text : List Char) : trim text = strip isWhitespace text := rfl

/-- A text of which `trim` leaves nothing. -/
def Blank (text : List Char) : Prop := trim text = []

instance (text : List Char) : Decidable (Blank text) := inferInstanceAs (Decidable (_ = _))

end Text

open Text

/-- `serde_json` skips whitespace around a value. Only what is deserialised counts, an error may name
another position. -/
structure EventJson.IgnoresSpace (json : EventJson) : Prop where
  headEvent : ∀ text, (json.headEvent (String.ofList text)).toOption =
    (json.headEvent (String.ofList (strip isJsonSpace text))).toOption
  payloadAttributesEvent : ∀ text, (json.payloadAttributesEvent (String.ofList text)).toOption =
    (json.payloadAttributesEvent (String.ofList (strip isJsonSpace text))).toOption

/-! ## Fields of a frame -/

/-- What a line of a frame says: a type, without the space around it, or data. -/
inductive SseField where
  | event (eventType : List Char)
  | data (text : List Char)
  deriving DecidableEq, Repr

namespace SseField

def ofLine? (line : List Char) : Option SseField :=
  match line.dropPrefix? "event: ".toList with
  | some val => some (.event (trim val))
  | none => (line.dropPrefix? "data: ".toList).map .data

def eventType? : SseField → Option (List Char)
  | .event eventType => some eventType
  | .data _ => none

def data? : SseField → Option (List Char)
  | .event _ => none
  | .data text => some text

/-- The types that the relay subscribes to. -/
def Known (eventType : List Char) : Prop :=
  eventType = "head".toList ∨ eventType = "payload_attributes".toList

instance (eventType : List Char) : Decidable (Known eventType) :=
  inferInstanceAs (Decidable (_ ∨ _))

/-- Data right after a known type. -/
def pair? : SseField → SseField → Option (List Char × List Char)
  | .event eventType, .data text => if Known eventType then some (eventType, text) else none
  | _, _ => none

/-- The data that stands right after a known type, with the type. -/
def pairs (fields : List SseField) : List (List Char × List Char) :=
  (fields.zip fields.tail).filterMap fun two => pair? two.1 two.2

end SseField

/-- A frame: non-empty lines, without the newlines between them. -/
structure SseFrame where
  lines : List (List Char)
  line_ne_nil : ∀ line ∈ lines, line ≠ []
  newline_not_mem : ∀ line ∈ lines, '\n' ∉ line

namespace SseFrame

variable (f : SseFrame)

def text : List Char := ['\n'].intercalate f.lines

def bytes : List UInt8 := (String.ofList f.text).toUTF8.data.toList

def fields : List SseField := f.lines.filterMap SseField.ofLine?

/-- The last type. -/
def eventType? : Option (List Char) := (f.fields.filterMap SseField.eventType?).getLast?

/-- The data of all data lines. -/
def dataTexts : List (List Char) := f.fields.filterMap SseField.data?

/-- Line by line, the frame gives the event that `parse_event` gives, and none if that gives none or
an error. -/
def Agree (json : EventJson) : Prop :=
  (RelayService.foldLines json none f.lines).1 =
    ((SseByteStream.parseEvent json f.bytes).bind Except.toOption).toList

/-- The frames that the two parsers read alike. Either no data stands right after a known type, and
the last type is not known or all data blank. Or one piece of data does, its type is also the last
one, it is the only data that is not blank, and the space around it is JSON's. -/
def Plain : Prop :=
  (SseField.pairs f.fields = [] ∧
    ((∀ eventType, f.eventType? = some eventType → ¬ SseField.Known eventType) ∨
      ∀ text ∈ f.dataTexts, Blank text)) ∨
  ∃ eventType text, SseField.pairs f.fields = [(eventType, text)] ∧
    f.eventType? = some eventType ∧ f.dataTexts.filter (fun d => ¬ Blank d) = [text] ∧
    strip isJsonSpace text = trim text

end SseFrame

/-! ## Line by line -/

/-- What data of a type deserialises to. -/
def EventJson.event? (json : EventJson) (eventType text : List Char) : Option BeaconEvent :=
  if eventType = "head".toList then (json.headEvent (String.ofList text)).toOption.map .head
  else if eventType = "payload_attributes".toList then
    (json.payloadAttributesEvent (String.ofList text)).toOption.map .payloadAttributes
  else none

namespace RelayService

variable {json : EventJson}

/-- An empty line or a comment has no field. -/
theorem ofLine?_of_comment {line : List Char}
    (h : (line.isEmpty || line.head? = some ':') = true) : SseField.ofLine? line = none := by
  cases line with
  | nil => rfl
  | cons c rest =>
    simp only [List.isEmpty_cons, Bool.false_or, List.head?_cons, Option.some_inj,
      decide_eq_true_eq] at h
    subst h
    rfl

/-- What a line does, by its field. -/
theorem processSseLine_eq (line : List Char) (currentEvent : Option (List Char)) :
    processSseLine json line currentEvent =
      match SseField.ofLine? line with
      | none => (none, currentEvent)
      | some (.event eventType) => (none, some eventType)
      | some (.data text) =>
        (currentEvent.bind fun eventType => json.event? eventType text, none) := by
  unfold processSseLine
  cases hcomment : line.isEmpty || line.head? = some ':' with
  | true =>
    rw [ofLine?_of_comment hcomment]
    rfl
  | false =>
    simp only [Bool.false_eq_true, if_false]
    unfold SseField.ofLine?
    cases line.dropPrefix? "event: ".toList with
    | some val => rfl
    | none =>
      cases line.dropPrefix? "data: ".toList with
      | none => rfl
      | some text =>
        cases currentEvent with
        | none => rfl
        | some eventType =>
          simp only [Option.map_some, Option.bind_some, EventJson.event?]
          split
          · rfl
          · split <;> rfl

end RelayService

namespace SseField

variable {json : EventJson}

theorem pairs_cons_cons (first second : SseField) (fields : List SseField) :
    pairs (first :: second :: fields) = (pair? first second).toList ++ pairs (second :: fields) := by
  unfold pairs
  rw [List.tail_cons, List.zip_cons_cons, List.filterMap_cons, List.tail_cons]
  cases pair? first second <;> rfl

/-- Only a known type has data that deserialises. -/
theorem event?_of_not_known {eventType : List Char} (h : ¬ Known eventType) (text : List Char) :
    json.event? eventType text = none := by
  unfold EventJson.event?
  rw [if_neg fun heq => h (.inl heq), if_neg fun heq => h (.inr heq)]

/-- A data line finds an event if it makes a pair with the field before it. -/
theorem bind_event?_eq (previous : SseField) (text : List Char) :
    (previous.eventType?.bind fun eventType => json.event? eventType text) =
      (pair? previous (.data text)).bind fun pair => json.event? pair.1 pair.2 := by
  cases previous with
  | data _ => rfl
  | event eventType =>
    by_cases hknown : Known eventType
    · simp [eventType?, pair?, hknown]
    · simp [eventType?, pair?, hknown, event?_of_not_known hknown]

end SseField

open SseField in
/-- Line by line, the pairs of a frame are looked at, one after the other. The induction is over the
lines; `previous` is the last field before them. -/
theorem RelayService.foldLines_fields {json : EventJson} (lines : List (List Char))
    (previous : Option SseField) :
    (foldLines json (previous.bind eventType?) lines).1 =
      (pairs (previous.toList ++ lines.filterMap ofLine?)).filterMap
        fun pair => json.event? pair.1 pair.2 := by
  induction lines generalizing previous with
  | nil => cases previous <;> rfl
  | cons line lines ih =>
    rw [List.filterMap_cons]
    cases hfield : ofLine? line with
    | none =>
      simp only [foldLines, processSseLine_eq, hfield]
      exact ih previous
    | some field =>
      have hnext := ih (some field)
      cases field with
      | event eventType =>
        simp only [foldLines, processSseLine_eq, hfield]
        apply hnext.trans
        cases previous with
        | none => rfl
        | some previous => cases previous <;> rfl
      | data text =>
        simp only [foldLines, processSseLine_eq, hfield]
        cases previous with
        | none => exact hnext
        | some previous =>
          rw [Option.bind_some, bind_event?_eq]
          show _ = List.filterMap _ (pairs (previous :: .data text :: _))
          rw [pairs_cons_cons, List.filterMap_append]
          have hrest : (foldLines json none lines).1 = _ := hnext
          rw [hrest]
          congr 1
          cases pair? previous (.data text) with
          | none => rfl
          | some pair => cases hevent : json.event? pair.1 pair.2 <;> simp [hevent]

/-! ## The frame as a whole -/

namespace SseByteStream

/-- Data appended to what there is. -/
def joinData (eventData text : List Char) : List Char :=
  (if eventData.isEmpty then eventData else eventData ++ [' ']) ++ trim text

/-- What a field does to the variables of the loop. -/
def Fields.readField (fields : Fields) : SseField → Fields
  | .event eventType => { fields with eventType := some eventType }
  | .data text => { fields with eventData := joinData fields.eventData text }

theorem readLine_eq (fields : Fields) (line : List Char) :
    fields.readLine line = ((SseField.ofLine? line).map fields.readField).getD fields := by
  unfold Fields.readLine SseField.ofLine?
  cases line.dropPrefix? "event: ".toList with
  | some val => rfl
  | none => cases line.dropPrefix? "data: ".toList <;> rfl

theorem foldl_readLine (lines : List (List Char)) (fields : Fields) :
    lines.foldl Fields.readLine fields =
      (lines.filterMap SseField.ofLine?).foldl Fields.readField fields := by
  induction lines generalizing fields with
  | nil => rfl
  | cons line lines ih =>
    rw [List.foldl_cons, readLine_eq, List.filterMap_cons, ih]
    cases SseField.ofLine? line <;> rfl

theorem foldl_readField (all : List SseField) (fields : Fields) :
    all.foldl Fields.readField fields =
      ⟨(all.filterMap SseField.eventType?).getLast?.or fields.eventType,
        (all.filterMap SseField.data?).foldl joinData fields.eventData⟩ := by
  induction all generalizing fields with
  | nil => rfl
  | cons field all ih =>
    rw [List.foldl_cons, ih]
    cases field with
    | data text => rfl
    | event eventType =>
      simp only [Fields.readField, SseField.eventType?, SseField.data?, List.filterMap_cons,
        List.getLast?_cons]
      cases (all.filterMap SseField.eventType?).getLast? <;> rfl

/-! A carriage return at the end of a line is trimmed in any case. -/

theorem dropPrefix?_concat {c : Char} {front : List Char} (hc : c ∉ front) (line : List Char) :
    (line ++ [c]).dropPrefix? front = (line.dropPrefix? front).map (· ++ [c]) := by
  induction front generalizing line with
  | nil => simp
  | cons d front ih =>
    cases line with
    | nil =>
      have hne : (c == d) = false := by
        rw [beq_eq_false_iff_ne]
        intro heq
        exact hc (heq ▸ List.mem_cons_self)
      simp [List.dropPrefix?, hne]
    | cons x line =>
      have hrest : c ∉ front := fun hmem => hc (List.mem_cons_of_mem d hmem)
      simp only [List.cons_append, List.dropPrefix?, ih hrest]
      split <;> rfl

theorem trim_concat_cr (text : List Char) : trim (text ++ ['\r']) = trim text := by
  rw [trim_eq_strip, trim_eq_strip]
  apply strip_append_right
  intro c hc
  rw [List.mem_singleton.mp hc]
  rfl

theorem readLine_dropCarriageReturn (fields : Fields) (line : List Char) :
    fields.readLine (dropCarriageReturn line) = fields.readLine line := by
  unfold dropCarriageReturn
  split
  · next hlast =>
    obtain ⟨front, rfl⟩ := List.getLast?_eq_some_iff.mp hlast
    rw [List.dropLast_concat]
    unfold Fields.readLine
    rw [dropPrefix?_concat (by decide) front, dropPrefix?_concat (by decide) front]
    cases front.dropPrefix? "event: ".toList with
    | some val => simp [trim_concat_cr]
    | none =>
      cases front.dropPrefix? "data: ".toList with
      | some val => simp [trim_concat_cr]
      | none => rfl
  · rfl

theorem linesFrom_of_not_mem {line : List Char} (h : '\n' ∉ line) (start : List Char)
    (hne : start ++ line ≠ []) : linesFrom start line = [start ++ line] := by
  induction line generalizing start with
  | nil =>
    rw [List.append_nil] at hne ⊢
    simp [linesFrom, hne]
  | cons c line ih =>
    have hc : c ≠ '\n' := fun heq => h (heq ▸ List.mem_cons_self)
    have hline : '\n' ∉ line := fun hmem => h (List.mem_cons_of_mem c hmem)
    rw [linesFrom.eq_3 start c line hc, ih hline (start ++ [c]) (by simp)]
    simp

theorem linesFrom_line {line : List Char} (h : '\n' ∉ line) (start rest : List Char) :
    linesFrom start (line ++ '\n' :: rest) =
      dropCarriageReturn (start ++ line) :: linesFrom [] rest := by
  induction line generalizing start with
  | nil =>
    rw [List.append_nil]
    rfl
  | cons c line ih =>
    have hc : c ≠ '\n' := fun heq => h (heq ▸ List.mem_cons_self)
    have hline : '\n' ∉ line := fun hmem => h (List.mem_cons_of_mem c hmem)
    rw [List.cons_append, linesFrom.eq_3 start c _ hc, ih hline (start ++ [c])]
    simp

/-- `lines` gives the lines back, up to carriage returns, which the loop does not see. -/
theorem foldl_readLine_lines (all : List (List Char)) (hne : ∀ line ∈ all, line ≠ [])
    (hnewline : ∀ line ∈ all, '\n' ∉ line) (fields : Fields) :
    (lines (['\n'].intercalate all)).foldl Fields.readLine fields =
      all.foldl Fields.readLine fields := by
  induction all generalizing fields with
  | nil => rfl
  | cons line all ih =>
    have hline : '\n' ∉ line := hnewline line List.mem_cons_self
    cases all with
    | nil =>
      have hlines := linesFrom_of_not_mem hline [] (hne line List.mem_cons_self)
      simp only [List.intercalate_singleton, lines, hlines]
      rfl
    | cons next all =>
      have hrest := ih (fun l hl => hne l (List.mem_cons_of_mem line hl))
        (fun l hl => hnewline l (List.mem_cons_of_mem line hl)) (fields.readLine line)
      have htext : ['\n'].intercalate (line :: next :: all) =
          line ++ '\n' :: ['\n'].intercalate (next :: all) := by
        simp [List.intercalate]
      rw [htext, lines, linesFrom_line hline, List.foldl_cons, List.nil_append,
        readLine_dropCarriageReturn]
      exact hrest

theorem fromUTF8?_toUTF8 (s : String) :
    String.fromUTF8? ⟨s.toUTF8.data.toList.toArray⟩ = some s := by
  have hvalid : s.toUTF8.IsValidUTF8 := s.isValidUTF8
  rw [Array.toArray_toList]
  show String.fromUTF8? s.toUTF8 = some s
  rw [String.fromUTF8?, dif_pos hvalid]
  rfl

/-- The event that the whole frame gives. -/
theorem parseEvent_frame (json : EventJson) (f : SseFrame) :
    (parseEvent json f.bytes).bind Except.toOption =
      f.eventType?.bind fun eventType =>
        if f.dataTexts.foldl joinData [] = [] then none
        else json.event? eventType (f.dataTexts.foldl joinData []) := by
  have hfields : (lines f.text).foldl Fields.readLine ⟨none, []⟩ =
      ⟨f.eventType?, f.dataTexts.foldl joinData []⟩ := by
    rw [SseFrame.text, foldl_readLine_lines f.lines f.line_ne_nil f.newline_not_mem,
      foldl_readLine, foldl_readField, Option.or_none]
    rfl
  unfold parseEvent SseFrame.bytes
  rw [fromUTF8?_toUTF8]
  simp only [Option.bind_eq_bind, Option.bind_some, String.toList_ofList, hfields]
  cases f.eventType? with
  | none => rfl
  | some eventType =>
    have htoOption : ∀ {α : Type} (value : Except String α) (wrap : α → BeaconEvent),
        ((value.map wrap).mapError BeaconError.sse).toOption = value.toOption.map wrap := by
      intro α value wrap
      cases value <;> rfl
    simp only [Option.bind_some, List.isEmpty_iff, EventJson.event?]
    split
    · rfl
    · split
      · simp only [Option.bind_some, htoOption]
      · split
        · simp only [Option.bind_some, htoOption]
        · rfl

end SseByteStream

/-! ## Joined data -/

namespace SseByteStream

/-- What is not whitespace. -/
def weight (text : List Char) : Nat := text.countP fun c => !isWhitespace c

theorem weight_strip {p : Char → Bool} (hp : ∀ c, p c → isWhitespace c) (text : List Char) :
    weight (strip p text) = weight text :=
  countP_strip hp text

theorem weight_eq_zero_iff (text : List Char) : weight text = 0 ↔ Blank text := by
  rw [Blank, trim_eq_strip, strip_eq_nil_iff, weight, List.countP_eq_zero]
  simp

theorem blank_of_sum_eq_zero {texts : List (List Char)} (h : (texts.map weight).sum = 0) :
    ∀ text ∈ texts, Blank text := by
  intro text htext
  rw [← weight_eq_zero_iff]
  exact List.sum_eq_zero_iff_forall_eq_nat.mp h _ (List.mem_map_of_mem htext)

theorem weight_joinData (eventData text : List Char) :
    weight (joinData eventData text) = weight eventData + weight text := by
  have htrim : weight (trim text) = weight text := weight_strip (fun _ => id) text
  unfold joinData
  split
  · next hnil =>
    rw [List.isEmpty_iff.mp hnil, List.nil_append, htrim]
    simp [weight]
  · have hspace : weight (eventData ++ [' ']) = weight eventData := by
      simp [weight, List.countP_append, isWhitespace]
    rw [← htrim]
    exact List.countP_append.trans (congrArg (· + _) hspace)

/-- Joining keeps everything that is not whitespace. -/
theorem weight_foldl_joinData (texts : List (List Char)) (eventData : List Char) :
    weight (texts.foldl joinData eventData) = weight eventData + (texts.map weight).sum := by
  induction texts generalizing eventData with
  | nil => rfl
  | cons text texts ih =>
    rw [List.foldl_cons, ih, weight_joinData, List.map_cons, List.sum_cons, Nat.add_assoc]

/-- Blank data before any other adds nothing. -/
theorem foldl_joinData_nil {texts : List (List Char)} (h : ∀ text ∈ texts, Blank text) :
    texts.foldl joinData [] = [] := by
  induction texts with
  | nil => rfl
  | cons text texts ih =>
    have htext : joinData [] text = [] := h text List.mem_cons_self
    rw [List.foldl_cons, htext]
    exact ih fun t ht => h t (List.mem_cons_of_mem text ht)

/-- Blank data after other data adds spaces. -/
theorem foldl_joinData_blank {texts : List (List Char)} (h : ∀ text ∈ texts, Blank text)
    (eventData : List Char) (hne : eventData ≠ []) :
    ∃ spaces, texts.foldl joinData eventData = eventData ++ spaces ∧
      ∀ c ∈ spaces, isJsonSpace c := by
  induction texts generalizing eventData with
  | nil => exact ⟨[], by simp, by simp⟩
  | cons text texts ih =>
    have htext : joinData eventData text = eventData ++ [' '] := by
      have hblank : trim text = [] := h text List.mem_cons_self
      simp [joinData, hblank, hne]
    obtain ⟨spaces, hspaces, hall⟩ :=
      ih (fun t ht => h t (List.mem_cons_of_mem text ht)) (eventData ++ [' ']) (by simp)
    refine ⟨' ' :: spaces, ?_, ?_⟩
    · rw [List.foldl_cons, htext, hspaces, List.append_assoc, List.singleton_append]
    · exact List.forall_mem_cons.mpr ⟨rfl, hall⟩

theorem foldl_joinData_eq_nil_iff (texts : List (List Char)) :
    texts.foldl joinData [] = [] ↔ ∀ text ∈ texts, Blank text := by
  refine ⟨?_, foldl_joinData_nil⟩
  intro hnil text htext
  have hsum := weight_foldl_joinData texts []
  rw [hnil, show weight [] = 0 from rfl, Nat.zero_add] at hsum
  exact blank_of_sum_eq_zero hsum.symm text htext

/-- The only data that is not blank, between the blank ones. -/
theorem filter_not_blank_eq_singleton_iff {texts : List (List Char)} {text : List Char} :
    texts.filter (fun d => ¬ Blank d) = [text] ↔
      ∃ before after, texts = before ++ text :: after ∧ (∀ d ∈ before, Blank d) ∧ ¬ Blank text ∧
        ∀ d ∈ after, Blank d := by
  simp only [List.filter_eq_cons_iff, List.filter_eq_nil_iff, decide_eq_true_eq, not_not]

/-- If only one piece of data is not blank, then the joined data is that piece, up to JSON's space. -/
theorem strip_joined_of_single {texts : List (List Char)} {text : List Char}
    (h : texts.filter (fun d => ¬ Blank d) = [text]) :
    strip isJsonSpace (texts.foldl joinData []) = trim text := by
  obtain ⟨before, after, rfl, hbefore, htext, hafter⟩ := filter_not_blank_eq_singleton_iff.mp h
  obtain ⟨spaces, hspaces, hall⟩ := foldl_joinData_blank hafter (trim text) htext
  have hjoined : (before ++ text :: after).foldl joinData [] = trim text ++ spaces := by
    rw [List.foldl_append, foldl_joinData_nil hbefore, List.foldl_cons]
    exact hspaces
  rw [hjoined, strip_append_right hall, trim_eq_strip]
  exact strip_strip isWhitespace_of_isJsonSpace text

/-- Data that is all of the joined data, up to JSON's space, is the only data that is not blank:
whatever else is no whitespace would be joined to it. -/
theorem single_of_strip_joined {texts : List (List Char)} {text : List Char} (hmem : text ∈ texts)
    (hne : texts.foldl joinData [] ≠ [])
    (h : strip isJsonSpace text = strip isJsonSpace (texts.foldl joinData [])) :
    texts.filter (fun d => ¬ Blank d) = [text] := by
  obtain ⟨before, after, rfl⟩ := List.append_of_mem hmem
  have hweight : weight text = (before.map weight).sum + (weight text + (after.map weight).sum) := by
    calc weight text
        = weight (strip isJsonSpace text) := (weight_strip isWhitespace_of_isJsonSpace text).symm
      _ = weight ((before ++ text :: after).foldl joinData []) := by
        rw [h, weight_strip isWhitespace_of_isJsonSpace]
      _ = (before.map weight).sum + (weight text + (after.map weight).sum) := by
        rw [weight_foldl_joinData]
        simp [weight]
  have hbefore : ∀ d ∈ before, Blank d := blank_of_sum_eq_zero (by omega)
  have hafter : ∀ d ∈ after, Blank d := blank_of_sum_eq_zero (by omega)
  refine filter_not_blank_eq_singleton_iff.mpr ⟨before, after, rfl, hbefore, ?_, hafter⟩
  intro htext
  refine hne (foldl_joinData_nil ?_)
  intro d hd
  rcases List.mem_append.mp hd with hd | hd
  · exact hbefore d hd
  · rcases List.mem_cons.mp hd with rfl | hd
    · exact htext
    · exact hafter d hd

end SseByteStream

/-! ## When the parsers agree -/

namespace EventJson

/-- JSON that is read without the space around it. -/
def ofStripped (head : List Char → Except String HeadEvent)
    (payloadAttributes : List Char → Except String PayloadAttributesEvent) : EventJson where
  headEvent text := head (strip isJsonSpace text.toList)
  payloadAttributesEvent text := payloadAttributes (strip isJsonSpace text.toList)

theorem ofStripped_ignoresSpace (head : List Char → Except String HeadEvent)
    (payloadAttributes : List Char → Except String PayloadAttributesEvent) :
    (ofStripped head payloadAttributes).IgnoresSpace := by
  have hstrip : ∀ text : List Char,
      strip isJsonSpace (String.ofList (strip isJsonSpace text)).toList =
        strip isJsonSpace (String.ofList text).toList := by
    intro text
    rw [String.toList_ofList, String.toList_ofList]
    exact strip_strip (fun _ => id) text
  constructor
  · intro text
    simp only [ofStripped, hstrip]
  · intro text
    simp only [ofStripped, hstrip]

theorem IgnoresSpace.event?_eq {json : EventJson} (h : json.IgnoresSpace)
    (eventType text : List Char) :
    json.event? eventType text = json.event? eventType (strip isJsonSpace text) := by
  unfold event?
  rw [h.headEvent text, h.payloadAttributesEvent text]

/-- Reads the texts that `accepts` names, as one event for each type. -/
def probe (accepts : List Char → Bool) : EventJson :=
  ofStripped (fun text => if accepts text then .ok ⟨0, "", false, false⟩ else .error "")
    (fun text => if accepts text then .ok ⟨"", ⟨0, "", ⟨0, "", ""⟩⟩⟩ else .error "")

/-- The event that `probe` reads. -/
def probeEvent (eventType : List Char) : BeaconEvent :=
  if eventType = "head".toList then .head ⟨0, "", false, false⟩
  else .payloadAttributes ⟨"", ⟨0, "", ⟨0, "", ""⟩⟩⟩

theorem event?_probe (accepts : List Char → Bool) {eventType : List Char}
    (h : SseField.Known eventType) (text : List Char) :
    (probe accepts).event? eventType text =
      if accepts (strip isJsonSpace text) then some (probeEvent eventType) else none := by
  rcases h with rfl | rfl
  · simp only [event?, probe, ofStripped, probeEvent, String.toList_ofList, if_true]
    split <;> rfl
  · have hne : "payload_attributes".toList ≠ "head".toList := by decide
    simp only [event?, probe, ofStripped, probeEvent, String.toList_ofList, if_true, if_neg hne]
    split <;> rfl

theorem probeEvent_injective {eventType eventType' : List Char} (h : SseField.Known eventType)
    (h' : SseField.Known eventType') (heq : probeEvent eventType = probeEvent eventType') :
    eventType = eventType' := by
  rcases h with rfl | rfl <;> rcases h' with rfl | rfl
  · rfl
  · cases heq
  · cases heq
  · rfl

end EventJson

namespace SseFrame

variable (f : SseFrame)

/-- All data, joined. -/
def joinedData : List Char := f.dataTexts.foldl SseByteStream.joinData []

/-- The type and the data that the whole frame gives, if the type is known and there is data. -/
def read? : Option (List Char × List Char) :=
  f.eventType?.bind fun eventType =>
    if SseField.Known eventType ∧ f.joinedData ≠ [] then some (eventType, f.joinedData) else none

/-- Agreement in terms of the fields. -/
theorem agree_iff (json : EventJson) :
    f.Agree json ↔
      (SseField.pairs f.fields).filterMap (fun pair => json.event? pair.1 pair.2) =
        (f.read?.bind fun pair => json.event? pair.1 pair.2).toList := by
  have hfold : (RelayService.foldLines json none f.lines).1 = _ :=
    RelayService.foldLines_fields f.lines none
  have hread : (SseByteStream.parseEvent json f.bytes).bind Except.toOption =
      f.read?.bind fun pair => json.event? pair.1 pair.2 := by
    rw [SseByteStream.parseEvent_frame, read?]
    cases f.eventType? with
    | none => rfl
    | some eventType =>
      show (if f.joinedData = [] then none else json.event? eventType f.joinedData) =
        Option.bind (if _ then _ else _) _
      by_cases hknown : SseField.Known eventType
      · by_cases hnil : f.joinedData = []
        · simp [hnil]
        · simp [hnil, hknown]
      · simp [hknown, SseField.event?_of_not_known hknown]
  rw [Agree, hfold, hread]
  rfl

theorem known_of_mem_pairs {fields : List SseField} {eventType text : List Char}
    (h : (eventType, text) ∈ SseField.pairs fields) :
    SseField.Known eventType ∧ text ∈ fields.filterMap SseField.data? := by
  obtain ⟨⟨first, second⟩, hzip, hpair⟩ := List.mem_filterMap.mp h
  have hsecond : second ∈ fields := List.mem_of_mem_tail (List.of_mem_zip hzip).2
  cases first with
  | data _ => cases hpair
  | event eventType' =>
    cases second with
    | event _ => cases hpair
    | data text' =>
      simp only [SseField.pair?, Option.ite_none_right_eq_some, Option.some.injEq,
        Prod.mk.injEq] at hpair
      obtain ⟨hknown, rfl, rfl⟩ := hpair
      exact ⟨hknown, List.mem_filterMap.mpr ⟨_, hsecond, rfl⟩⟩

theorem read?_eq_some_iff {eventType text : List Char} :
    f.read? = some (eventType, text) ↔
      f.eventType? = some eventType ∧ SseField.Known eventType ∧ f.joinedData ≠ [] ∧
        text = f.joinedData := by
  simp only [read?, Option.bind_eq_some_iff, Option.ite_none_right_eq_some, Option.some.injEq,
    Prod.mk.injEq]
  constructor
  · rintro ⟨_, htype, ⟨hknown, hne⟩, rfl, rfl⟩
    exact ⟨htype, hknown, hne, rfl⟩
  · rintro ⟨htype, hknown, hne, rfl⟩
    exact ⟨eventType, htype, ⟨hknown, hne⟩, rfl, rfl⟩

/-- The whole frame gives nothing. -/
theorem read?_eq_none_iff :
    f.read? = none ↔
      (∀ eventType, f.eventType? = some eventType → ¬ SseField.Known eventType) ∨
        ∀ text ∈ f.dataTexts, Blank text := by
  rw [← SseByteStream.foldl_joinData_eq_nil_iff]
  show _ ↔ _ ∨ f.joinedData = []
  unfold read?
  cases f.eventType? with
  | none => simp
  | some eventType =>
    by_cases hknown : SseField.Known eventType <;> by_cases hnil : f.joinedData = [] <;>
      simp [hknown, hnil]

/-- What deserialising may depend on: the type, and the data without the space around it. -/
def key (pair : List Char × List Char) : List Char × List Char :=
  (pair.1, strip isJsonSpace pair.2)

/-- The parsers agree on everything that JSON may deserialise to if they deserialise the same. For
the one direction, deserialise all texts, then only the one that the whole frame gives. -/
theorem forall_agree_iff :
    (∀ json : EventJson, json.IgnoresSpace → f.Agree json) ↔
      (SseField.pairs f.fields).map key = (f.read?.map key).toList := by
  constructor
  · intro h
    have hagree : ∀ accepts, _ := fun accepts =>
      (f.agree_iff (.probe accepts)).mp (h _ (EventJson.ofStripped_ignoresSpace _ _))
    have hall := hagree fun _ => true
    have hpairs : (SseField.pairs f.fields).filterMap
          (fun pair => (EventJson.probe fun _ => true).event? pair.1 pair.2) =
        (SseField.pairs f.fields).map fun pair => EventJson.probeEvent pair.1 := by
      rw [← List.filterMap_eq_map]
      apply List.filterMap_congr
      intro pair hpair
      rw [EventJson.event?_probe _ (known_of_mem_pairs hpair).1]
      rfl
    rw [hpairs] at hall
    cases hread : f.read? with
    | none =>
      rw [hread] at hall
      rw [List.map_eq_nil_iff.mp hall]
      rfl
    | some read =>
      obtain ⟨eventType, text⟩ := read
      have hknown : SseField.Known eventType := (f.read?_eq_some_iff.mp hread).2.1
      rw [hread, Option.bind_some, EventJson.event?_probe _ hknown] at hall
      obtain ⟨⟨eventType', text'⟩, hsingle, hevent⟩ := List.map_eq_singleton_iff.mp hall
      have hknown' : SseField.Known eventType' :=
        (known_of_mem_pairs (hsingle ▸ List.mem_singleton_self _)).1
      cases EventJson.probeEvent_injective hknown' hknown hevent
      have honly := hagree fun candidate => candidate = strip isJsonSpace text
      rw [hsingle, hread, Option.bind_some, EventJson.event?_probe _ hknown, List.filterMap_cons,
        EventJson.event?_probe _ hknown] at honly
      by_cases htext : strip isJsonSpace text' = strip isJsonSpace text
      · rw [hsingle]
        simp [key, htext]
      · simp [htext] at honly
  · intro h json hjson
    rw [agree_iff]
    have hkey : ∀ pair : List Char × List Char,
        json.event? pair.1 pair.2 = json.event? (key pair).1 (key pair).2 :=
      fun pair => hjson.event?_eq pair.1 pair.2
    calc (SseField.pairs f.fields).filterMap (fun pair => json.event? pair.1 pair.2)
        = ((SseField.pairs f.fields).map key).filterMap (fun k => json.event? k.1 k.2) := by
          rw [List.filterMap_map]
          exact List.filterMap_congr fun pair _ => hkey pair
      _ = (f.read?.bind fun pair => json.event? pair.1 pair.2).toList := by
          rw [h]
          cases f.read? with
          | none => rfl
          | some pair =>
            rw [Option.bind_some, hkey pair]
            cases hevent : json.event? (key pair).1 (key pair).2 <;> simp [hevent]

/-- **On which frames the two parsers agree**, whatever JSON deserialises to. -/
theorem parsers_agree_iff :
    (∀ json : EventJson, json.IgnoresSpace → f.Agree json) ↔ f.Plain := by
  rw [forall_agree_iff]
  constructor
  · intro h
    cases hread : f.read? with
    | none =>
      rw [hread] at h
      exact .inl ⟨List.map_eq_nil_iff.mp h, f.read?_eq_none_iff.mp hread⟩
    | some read =>
      obtain ⟨eventType, text⟩ := read
      obtain ⟨htype, hknown, hne, rfl⟩ := f.read?_eq_some_iff.mp hread
      rw [hread] at h
      obtain ⟨⟨eventType', text⟩, hsingle, hkey⟩ := List.map_eq_singleton_iff.mp h
      obtain ⟨rfl, hstrip⟩ := Prod.mk.inj hkey
      have hmem : text ∈ f.dataTexts :=
        (known_of_mem_pairs (hsingle ▸ List.mem_singleton_self _)).2
      have honly := SseByteStream.single_of_strip_joined hmem hne hstrip
      refine .inr ⟨eventType', text, hsingle, htype, honly, ?_⟩
      exact hstrip.trans (SseByteStream.strip_joined_of_single honly)
  · rintro (⟨hnone, hread⟩ | ⟨eventType, text, hsingle, htype, honly, hstrip⟩)
    · rw [hnone, f.read?_eq_none_iff.mpr hread]
      rfl
    · have hknown : SseField.Known eventType :=
        (known_of_mem_pairs (hsingle ▸ List.mem_singleton_self _)).1
      have hjoined : strip isJsonSpace f.joinedData = trim text :=
        SseByteStream.strip_joined_of_single honly
      have hne : f.joinedData ≠ [] := by
        intro hnil
        have hblank := (SseByteStream.foldl_joinData_eq_nil_iff f.dataTexts).mp hnil
        obtain ⟨before, after, htexts, -, hnot, -⟩ :=
          SseByteStream.filter_not_blank_eq_singleton_iff.mp honly
        exact hnot (hblank text (by simp [htexts]))
      rw [hsingle, f.read?_eq_some_iff.mpr ⟨htype, hknown, hne, rfl⟩]
      simp [key, hstrip, hjoined]

/-- A head event with its data line first. -/
def dataFirst : SseFrame where
  lines := [("data: " ++ SseByteStream.sampleFrame.data).toList, "event: head".toList]
  line_ne_nil := by decide +kernel
  newline_not_mem := by decide +kernel

/-- Deserialises that data, also with space around it. -/
def tolerantJson : EventJson :=
  .ofStripped
    (fun text => if text = SseByteStream.sampleFrame.data.toList then
      .ok ⟨123, "0xabc", false, false⟩ else .error "expected value")
    (fun _ => .error "missing field")

/-- Read as a whole, the frame gives the event; line by line, it gives none. -/
theorem parsers_disagree :
    ¬ ∀ (f : SseFrame) (json : EventJson), json.IgnoresSpace → f.Agree json := by
  intro h
  have hagree := h dataFirst tolerantJson (EventJson.ofStripped_ignoresSpace _ _)
  rw [agree_iff] at hagree
  exact absurd hagree (by decide +kernel)

end SseFrame

end MevRelay
