import AdaptivePi.Log.Payload

namespace AdaptivePi.Log

open Foundation

def unescape (field : Bytes) : Option Bytes :=
  match attributeScheme.decodeUntil 34 (field ++ [34]) with
  | some (text, []) => some text
  | _ => none

theorem unescape_encode (text : Bytes) : unescape (attributeScheme.encode text) = some text := by
  have hspecial : (attributeScheme.letter 34).isSome = true := by decide
  have hread := attributeScheme.decodeUntil_encode hspecial (by decide) text []
  simp [unescape, hread]

/-- The value between the quotes: a line number follows the last colon. -/
def decodeField : AttributeKind → Bytes → Option Attribute
  | .location, field =>
      match spanDigits field.reverse with
      | (digits, 58 :: file) =>
          (unescape file.reverse).map fun file =>
            .location ⟨file, UInt32.ofNat (readDecimal digits.reverse)⟩
      | _ => none
  | .tag, field => (unescape field).map fun value => .tag ⟨value⟩

theorem decodeField_field (item : Attribute) :
    decodeField item.kind item.field = some item := by
  cases item with
  | location place =>
      obtain ⟨file, line⟩ := place
      have hreverse : (attributeScheme.encode file ++ 58 :: decimal line.toNat).reverse =
          (decimal line.toNat).reverse ++ 58 :: (attributeScheme.encode file).reverse := by
        simp
      have hdigits : ∀ byte ∈ (decimal line.toNat).reverse, isDigit byte = true :=
        fun byte hbyte => isDigit_of_mem_decimal (List.mem_reverse.mp hbyte)
      simp only [Attribute.kind, Attribute.field, decodeField, hreverse,
        spanDigits_append _ _ _ hdigits (by decide : isDigit 58 = false), List.reverse_reverse,
        unescape_encode, readDecimal_decimal, Option.map_some, UInt32.ofNat_toNat]
  | tag name => simp [Attribute.kind, Attribute.field, decodeField, unescape_encode]

/-- Take a known text from the end of a text, both reversed. -/
def stripReversed (expected reversed : Bytes) : Option Bytes :=
  if reversed.take expected.length = expected.reverse then
    some (reversed.drop expected.length)
  else none

def readAttribute (kind : AttributeKind) : Bytes → Option (Attribute × Bytes)
  | 34 :: reversed => do
      let (field, before) ← openField 34 92 reversed
      let item ← decodeField kind field
      let rest ← stripReversed kind.label before
      pure (item, rest)
  | _ => none

/-- A quote inside a field follows a backslash. -/
private theorem guarded_field (item : Attribute) :
    attributeScheme.Guarded 34 34 item.field := by
  cases item with
  | location place =>
      refine attributeScheme.guarded_append_of_not_mem
        (attributeScheme.guarded_encode (by decide) (by decide) _ _) ?_
      intro hmem
      rcases List.mem_cons.mp hmem with h | h
      · exact absurd h (by decide)
      · exact absurd (isDigit_of_mem_decimal h) (by decide)
  | tag name => exact attributeScheme.guarded_encode (by decide) (by decide) _ _

private theorem label_eq (kind : AttributeKind) : ∃ init, kind.label = init ++ [61] := by
  cases kind with
  | location => exact ⟨ascii " location", by decide⟩
  | tag => exact ⟨ascii " tag", by decide⟩

/-- The last attribute is read back from the end. -/
theorem readAttribute_text (item : Attribute) (before : Bytes) :
    readAttribute item.kind (before ++ item.text).reverse = some (item, before.reverse) := by
  obtain ⟨init, hinit⟩ := label_eq item.kind
  have hmark : (61 : UInt8) ≠ attributeScheme.escape := by decide
  have hopen := openField_reverse attributeScheme hmark item.field (before ++ init)
    (guarded_field item)
  have hreverse : (before ++ item.text).reverse =
      34 :: (before ++ init ++ 61 :: 34 :: item.field).reverse := by
    simp [Attribute.text, hinit]
  have hstrip : stripReversed item.kind.label (before ++ init ++ [61]).reverse =
      some before.reverse := by
    simp [stripReversed, hinit]
  rw [hreverse]
  simp only [readAttribute, Option.bind_eq_bind]
  change openField 34 92 _ = _ at hopen
  rw [hopen]
  simp only [Option.bind_some, decodeField_field, hstrip]
  rfl

def readAttributes : List AttributeKind → Bytes → Option (List Attribute × Bytes)
  | [], reversed => some ([], reversed)
  | kind :: rest, reversed => do
      let (item, reversed') ← readAttribute kind reversed
      let (items, reversed'') ← readAttributes rest reversed'
      pure (items ++ [item], reversed'')

theorem readAttributes_text (attributes : List Attribute) (before : Bytes) :
    readAttributes (attributes.map Attribute.kind).reverse
        (before ++ attributes.flatMap Attribute.text).reverse =
      some (attributes, before.reverse) := by
  induction attributes using List.reverseRecOn with
  | nil => simp [readAttributes]
  | append_singleton attributes item ih =>
      have hlast := readAttribute_text item (before ++ attributes.flatMap Attribute.text)
      have hkinds : ((attributes ++ [item]).map Attribute.kind).reverse =
          item.kind :: (attributes.map Attribute.kind).reverse := by simp
      have htexts : before ++ (attributes ++ [item]).flatMap Attribute.text =
          before ++ attributes.flatMap Attribute.text ++ item.text := by simp
      rw [hkinds, htexts]
      simp only [readAttributes, Option.bind_eq_bind, hlast, Option.bind_some, ih]
      rfl

def decodePayload (kinds : List AttributeKind) (bytes : Bytes) :
    Option (Bytes × Bytes × List Attribute) := do
  let (attributes, reversed) ← readAttributes kinds.reverse bytes.reverse
  match reversed.reverse with
  | 105 :: 100 :: 61 :: head =>
      match head.dropWhile (· ≠ 32) with
      | [] => some (head, [], attributes)
      | _ :: text => some (head.takeWhile (· ≠ 32), text, attributes)
  | _ => none

/-- An ID has no blanks, so that the text begins after the first one. -/
theorem space_not_mem_of_valid {id : Bytes} (hid : isValidMessageId id = true) : 32 ∉ id := by
  intro hmem
  cases id with
  | nil => cases hid
  | cons c rest =>
      have hall : ∀ byte ∈ c :: rest, allowedInMessageId byte = true := by
        simpa [isValidMessageId] using hid
      exact absurd (hall 32 hmem) (by decide)

/-- Decoding inverts the construction of a payload. -/
theorem decodePayload_payload {id : Bytes} (hid : isValidMessageId id = true) (text : Bytes)
    (attributes : List Attribute) :
    decodePayload (attributes.map Attribute.kind) (payload id text attributes) =
      some (id, text, attributes) := by
  have hspace := space_not_mem_of_valid hid
  have hpos : ∀ c ∈ id, decide (c ≠ 32) = true := by
    intro c hc
    simpa using ne_of_mem_of_not_mem hc hspace
  have hstart : ascii "id=" = [105, 100, 61] := by decide
  unfold decodePayload payload
  rw [readAttributes_text]
  simp only [Option.bind_eq_bind, Option.bind_some, List.reverse_reverse, hstart,
    List.cons_append, List.nil_append]
  rw [List.dropWhile_append_of_pos hpos, List.takeWhile_append_of_pos hpos]
  by_cases htext : text = []
  · simp [htext]
  · simp [htext]

section

variable {Params Params' : Type} (loggers : LoggerPtr → Logger)

/-- What the stream of a call submits: all its bytes, unless it has failed. -/
def emittedPayload (this : LoggerPtr) (attributes : AttributeTuple)
    (message : ModelledMessage Params) (params : Params) : Option Bytes :=
  let stream := Logger.messageStream loggers this attributes message params
  if stream.enabled ∧ ¬stream.failed then some stream.buffer.view else none

theorem emittedPayload_eq {this : LoggerPtr} {attributes : AttributeTuple}
    {message : ModelledMessage Params} {params : Params} {bytes : Bytes}
    (h : emittedPayload loggers this attributes message params = some bytes) :
    ∃ text, concatenation (message.render params) = some text ∧
      bytes = payload message.kId text attributes.attributes := by
  obtain ⟨insertions, ⟨-, -, -, hholds⟩, htext⟩ :=
    @Logger.carries_messageStream loggers this Params attributes message params
  simp only [emittedPayload] at h
  split_ifs at h with hcondition
  obtain ⟨henabled, hfailed⟩ := hcondition
  obtain ⟨hflag, hview⟩ := hholds henabled
  obtain ⟨whole, hwhole⟩ : ∃ whole, messageText insertions = some whole := by
    rw [hflag] at hfailed
    simpa [Option.isNone_iff_eq_none, Option.ne_none_iff_exists'] using hfailed
  obtain ⟨hconcatenation, -⟩ := messageText_eq_some_iff.mp hwhole
  rw [htext, Option.map_eq_some_iff] at hconcatenation
  obtain ⟨text, hrendered, hpayload⟩ := hconcatenation
  refine ⟨text, hrendered, ?_⟩
  rw [hpayload, ← hview whole hwhole]
  exact (Option.some.inj h).symm

/-- A payload determines the ID, the rendered text and the attributes of the
call that built it, and the decoder recovers them. -/
theorem payload_determines_call (this this' : LoggerPtr)
    (attributes attributes' : AttributeTuple) (message : ModelledMessage Params)
    (message' : ModelledMessage Params') (params : Params) (params' : Params')
    (hshape : attributes.attributes.map Attribute.kind =
      attributes'.attributes.map Attribute.kind) {bytes : Bytes}
    (h : emittedPayload loggers this attributes message params = some bytes)
    (h' : emittedPayload loggers this' attributes' message' params' = some bytes) :
    message.kId = message'.kId ∧
      concatenation (message.render params) = concatenation (message'.render params') ∧
      attributes.attributes = attributes'.attributes ∧
      ∃ text, concatenation (message.render params) = some text ∧
        decodePayload (attributes.attributes.map Attribute.kind) bytes =
          some (message.kId, text, attributes.attributes) := by
  obtain ⟨text, hrendered, hbytes⟩ := emittedPayload_eq loggers h
  obtain ⟨text', hrendered', hbytes'⟩ := emittedPayload_eq loggers h'
  have hdecode : decodePayload (attributes.attributes.map Attribute.kind) bytes =
      some (message.kId, text, attributes.attributes) := by
    rw [hbytes]
    exact decodePayload_payload message.kId_valid text attributes.attributes
  have hdecode' : decodePayload (attributes.attributes.map Attribute.kind) bytes =
      some (message'.kId, text', attributes'.attributes) := by
    rw [hshape, hbytes']
    exact decodePayload_payload message'.kId_valid text' attributes'.attributes
  rw [hdecode, Option.some.injEq, Prod.mk.injEq, Prod.mk.injEq] at hdecode'
  obtain ⟨hid, htext, hattributes⟩ := hdecode'
  refine ⟨hid, ?_, hattributes, text, hrendered, hdecode⟩
  rw [hrendered, hrendered', htext]

/-- A text that imitates a tag, and a file that ends in a backslash. -/
theorem payload_determines_call_imitation :
    let message : ModelledMessage Bytes :=
      ⟨ascii "M1", .fatal, fun text => [.string text], true, false, by decide⟩
    let attributes : AttributeTuple :=
      ⟨[.location ⟨ascii "a:\"\\", 7⟩, .tag ⟨ascii "x"⟩], by decide⟩
    let text := ascii "t tag=\"x\""
    ∃ text', concatenation (message.render text) = some text' ∧
      decodePayload [.location, .tag]
          (ascii "id=M1 t tag=\"x\" location=\"a:\\\"\\\\:7\" tag=\"x\"") =
        some (message.kId, text', attributes.attributes) := by
  intro message attributes text
  have hemitted : emittedPayload (fun _ => ⟨[], .verbose⟩) 0 attributes message text =
      some (ascii "id=M1 t tag=\"x\" location=\"a:\\\"\\\\:7\" tag=\"x\"") := by
    decide +kernel
  exact (payload_determines_call _ 0 0 attributes attributes message message text text rfl
    hemitted hemitted).2.2.2

end

end AdaptivePi.Log
