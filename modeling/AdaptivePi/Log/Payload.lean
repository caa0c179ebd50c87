import AdaptivePi.Log.ModelledMessage

/-!
The payload of a modelled message: the ID, the rendered text behind a space
unless it is empty, and the attributes. The stream of `logWith` carries exactly
this text. The text itself is not escaped, so the payload is read from the
right end: an unescaped quote cannot occur inside an attribute value, which
leaves one place where the last attribute can begin.
-/

namespace AdaptivePi.Log

open Foundation

def attributeScheme : EscapeScheme UInt8 where
  escape := 92
  letter c := if c = 92 ∨ c = 34 then some c else none
  original l := some l
  original_letter := by
    intro c l h
    split_ifs at h
    exact h.symm
  letter_escape := by simp

def AttributeKind.label : AttributeKind → Bytes
  | .location => ascii " location="
  | .tag => ascii " tag="

def Attribute.field : Attribute → Bytes
  | .location place => attributeScheme.encode place.file ++ 58 :: decimal place.line.toNat
  | .tag name => attributeScheme.encode name.value

def Attribute.text (item : Attribute) : Bytes :=
  item.kind.label ++ 34 :: (item.field ++ [34])

def payload (id text : Bytes) (attributes : List Attribute) : Bytes :=
  ascii "id=" ++ id ++ (if text = [] then [] else 32 :: text) ++
    attributes.flatMap Attribute.text

/-- The stream collects a record for the logger whose values concatenate to
`text`. -/
def LogStream.Carries (loggers : LoggerPtr → Logger) (logger : LoggerPtr) (level : LogLevel)
    (stream : LogStream) (text : Option Bytes) : Prop :=
  ∃ insertions, (StreamState.pending ⟨logger, level, insertions⟩).Represents loggers stream ∧
    concatenation insertions = text

namespace LogStream

variable {loggers : LoggerPtr → Logger} {logger : LoggerPtr} {level : LogLevel}
  {stream : LogStream} {text : Option Bytes}

theorem carries_construct (loggers : LoggerPtr → Logger) (logger : LoggerPtr)
    (level : LogLevel) : (construct loggers logger level).Carries loggers logger level (some []) :=
  ⟨[], StreamState.represents_construct logger level, rfl⟩

theorem Carries.insert (h : stream.Carries loggers logger level text) (insertion : Insertion) :
    (stream.insert insertion).Carries loggers logger level
      (text.bind fun before => insertion.rendered.map (before ++ ·)) := by
  obtain ⟨insertions, hrepresents, htext⟩ := h
  refine ⟨insertions ++ [insertion], hrepresents.insert insertion, ?_⟩
  rw [concatenation_snoc, htext]

/-- An insertion that has a text appends it. -/
theorem Carries.insert_text (h : stream.Carries loggers logger level text)
    {insertion : Insertion} {last : Bytes} (hlast : insertion.rendered = some last) :
    (stream.insert insertion).Carries loggers logger level (text.map (· ++ last)) := by
  have hinsert := h.insert insertion
  rw [hlast] at hinsert
  simpa [Option.map_eq_bind, Function.comp_def] using hinsert

end LogStream

namespace MessageWriter

/-- A null pointer has no text, a skipped value has an empty one, and every
other value has a text that is not empty. -/
private theorem skips_cases (insertion : Insertion) :
    insertion = .cString none ∨
      (insertion ≠ .cString none ∧ skips insertion = true ∧ insertion.rendered = some []) ∨
      (insertion ≠ .cString none ∧ skips insertion = false ∧
        ∃ text, text ≠ [] ∧ insertion.rendered = some text) := by
  have hfloating (format : FloatFormat) (precision : Nat) (hprecision : 0 < precision)
      (value : BitVec format.width) :
      Insertion.rendered.floatingText format precision value ≠ [] := by
    unfold Insertion.rendered.floatingText
    split_ifs
    · decide
    · decide
    · decide
    · exact format.generalText_ne_nil value precision hprecision
  cases insertion with
  | stringView value =>
      cases value with
      | nil => exact Or.inr (Or.inl ⟨by simp, rfl, rfl⟩)
      | cons c rest => exact Or.inr (Or.inr ⟨by simp, rfl, c :: rest, by simp, rfl⟩)
  | string value =>
      cases value with
      | nil => exact Or.inr (Or.inl ⟨by simp, rfl, rfl⟩)
      | cons c rest => exact Or.inr (Or.inr ⟨by simp, rfl, c :: rest, by simp, rfl⟩)
  | cString value =>
      cases value with
      | none => exact Or.inl rfl
      | some memory =>
          cases memory with
          | nil => exact Or.inr (Or.inl ⟨by simp, rfl, rfl⟩)
          | cons c rest =>
              by_cases hc : c = 0
              · subst hc
                exact Or.inr (Or.inl ⟨by simp, rfl, rfl⟩)
              · refine Or.inr (Or.inr ⟨by simp, by simp [skips, hc], c :: cStringView rest,
                  by simp, ?_⟩)
                simp [Insertion.rendered, cStringView, hc]
  | char value => exact Or.inr (Or.inr ⟨by simp, rfl, [value], by simp, rfl⟩)
  | bool value =>
      refine Or.inr (Or.inr ⟨by simp, rfl, _, ?_, rfl⟩)
      cases value <;> decide
  | float value =>
      exact Or.inr (Or.inr ⟨by simp, rfl, _, hfloating .binary32 9 (by omega) value, rfl⟩)
  | double value =>
      exact Or.inr (Or.inr ⟨by simp, rfl, _, hfloating .binary64 17 (by omega) value, rfl⟩)
  | integer type value =>
      exact Or.inr (Or.inr ⟨by simp, rfl, _, decimalInt_ne_nil _, rfl⟩)

private theorem insert_of_ne {writer : MessageWriter} {insertion : Insertion}
    (h : insertion ≠ .cString none) :
    writer.insert insertion =
      if skips insertion then writer
      else
        ⟨(if writer.textStarted then writer.stream
          else writer.stream.insert (.stringView (ascii " "))).insert insertion, true⟩ := by
  cases insertion with
  | cString value =>
      cases value with
      | none => exact absurd rfl h
      | some memory => rfl
  | _ => rfl

def separated (textStarted : Bool) (text : Bytes) : Bytes :=
  if textStarted ∨ text = [] then text else 32 :: text

/-- The space and the first text that is not empty start the rendered text. -/
private theorem separated_cons {text : Option Bytes} {insertion : Insertion}
    {rest : List Insertion} {last : Bytes} (hlast : last ≠ [])
    (hrendered : insertion.rendered = some last) (textStarted : Bool) :
    ((text.map (· ++ if textStarted then [] else [32])).map (· ++ last)).bind
        (fun before => (concatenation rest).map (before ++ separated true ·)) =
      text.bind fun before =>
        (concatenation (insertion :: rest)).map (before ++ separated textStarted ·) := by
  rw [concatenation_cons, hrendered]
  cases text with
  | none => rfl
  | some before =>
      cases concatenation rest with
      | none => rfl
      | some after => cases textStarted <;> simp [separated, hlast]

/-- What the message inserts is appended to the stream; one space comes before
the first value that is not empty. -/
theorem carries_foldl {loggers : LoggerPtr → Logger} {logger : LoggerPtr} {level : LogLevel}
    (insertions : List Insertion) {stream : LogStream} {text : Option Bytes}
    (h : stream.Carries loggers logger level text) (textStarted : Bool) :
    (insertions.foldl insert ⟨stream, textStarted⟩).stream.Carries loggers logger level
      (text.bind fun before =>
        (concatenation insertions).map (before ++ separated textStarted ·)) := by
  induction insertions generalizing stream textStarted text with
  | nil => simpa [concatenation, separated] using h
  | cons insertion rest ih =>
      rw [List.foldl_cons]
      rcases skips_cases insertion with rfl | ⟨hnull, hskips, hrendered⟩ |
        ⟨hnull, hskips, last, hlast, hrendered⟩
      · have hnone : (stream.insert (.cString none)).Carries loggers logger level none := by
          simpa [Insertion.rendered] using h.insert (.cString none)
        have hrest := ih hnone textStarted
        change (rest.foldl insert
          ⟨stream.insert (.cString none), textStarted⟩).stream.Carries loggers logger level _
        simpa [concatenation_cons, Insertion.rendered] using hrest
      · rw [insert_of_ne hnull, if_pos hskips]
        simpa [concatenation_cons, hrendered] using ih h textStarted
      · have hseparated : (if textStarted then stream
            else stream.insert (.stringView (ascii " "))).Carries loggers logger level
              (text.map (· ++ if textStarted then [] else [32])) := by
          cases textStarted with
          | false =>
              have hspace : (Insertion.stringView (ascii " ")).rendered = some [32] := rfl
              exact h.insert_text hspace
          | true => simpa using h
        have hrest := ih (hseparated.insert_text hrendered) true
        rw [insert_of_ne hnull, if_neg (by simp [hskips]), ← separated_cons hlast hrendered]
        exact hrest

end MessageWriter

namespace Logger

/-- The loop stops at a failed stream, which ignores insertions anyway. -/
private theorem appendAttributeValue_eq (stream : LogStream) (value : Bytes) :
    appendAttributeValue stream value =
      (attributeScheme.encode value).foldl (fun stream c => stream.insert (.char c)) stream := by
  induction value generalizing stream with
  | nil => rfl
  | cons character rest ih =>
      rw [EscapeScheme.encode_cons, List.foldl_append]
      unfold appendAttributeValue
      by_cases hfailed : stream.failed = true
      · have hignored (text : Bytes) :
            text.foldl (fun stream c => stream.insert (.char c)) stream = stream := by
          induction text with
          | nil => rfl
          | cons c text ihtext =>
              have hinactive : stream.inactive = true := by
                simp [LogStream.inactive, hfailed]
              rw [List.foldl_cons, LogStream.insert_inactive _ hinactive, ihtext]
        rw [if_pos hfailed, hignored, hignored]
      · rw [if_neg hfailed, ih]
        congr 1
        by_cases hspecial : character = 92 ∨ character = 34
        · simp [EscapeScheme.encodeSymbol, attributeScheme, hspecial]
        · simp [EscapeScheme.encodeSymbol, attributeScheme, hspecial]

section

variable {loggers : LoggerPtr → Logger} {logger : LoggerPtr} {level : LogLevel}
  {stream : LogStream} {text : Option Bytes}

private theorem carries_appendAttributeValue
    (h : stream.Carries loggers logger level text) (value : Bytes) :
    (appendAttributeValue stream value).Carries loggers logger level
      (text.map (· ++ attributeScheme.encode value)) := by
  rw [appendAttributeValue_eq]
  generalize attributeScheme.encode value = escaped
  induction escaped generalizing stream text with
  | nil => simpa using h
  | cons c rest ih =>
      have hchar : (Insertion.char c).rendered = some [c] := rfl
      simpa [Function.comp_def] using ih (h.insert_text hchar)

/-- An attribute adds its label and its field. -/
private theorem carries_appendAttribute
    (h : stream.Carries loggers logger level text) (item : Attribute) :
    (appendAttribute stream item).Carries loggers logger level
      (text.map (· ++ item.text)) := by
  have hquote : (Insertion.char 34).rendered = some [34] := rfl
  cases item with
  | location place =>
      have hopening : (Insertion.stringView (ascii " location=\"")).rendered =
          some (ascii " location=" ++ [34]) := rfl
      have hcolon : (Insertion.char 58).rendered = some [58] := rfl
      have hline : (Insertion.integer uint32 place.line.toBitVec).rendered =
          some (decimal place.line.toNat) := rfl
      have hcarries := (((carries_appendAttributeValue (h.insert_text hopening)
        place.file).insert_text hcolon).insert_text hline).insert_text hquote
      simpa [appendAttribute, Attribute.text, Attribute.kind, AttributeKind.label,
        Attribute.field, Function.comp_def] using hcarries
  | tag name =>
      have hopening : (Insertion.stringView (ascii " tag=\"")).rendered =
          some (ascii " tag=" ++ [34]) := rfl
      have hcarries := (carries_appendAttributeValue (h.insert_text hopening)
        name.value).insert_text hquote
      simpa [appendAttribute, Attribute.text, Attribute.kind, AttributeKind.label,
        Attribute.field, Function.comp_def] using hcarries

private theorem carries_foldl_appendAttribute
    (h : stream.Carries loggers logger level text) (attributes : List Attribute) :
    (attributes.foldl appendAttribute stream).Carries loggers logger level
      (text.map (· ++ attributes.flatMap Attribute.text)) := by
  induction attributes generalizing stream text with
  | nil => simpa using h
  | cons item rest ih =>
      simpa [Function.comp_def] using ih (carries_appendAttribute h item)

/-- The stream of `logWith` carries the payload of the rendered text. -/
theorem carries_messageStream {Params : Type} (attributes : AttributeTuple)
    (message : ModelledMessage Params) (params : Params) :
    (messageStream loggers logger attributes message params).Carries loggers logger
      message.kLevel
      ((concatenation (message.render params)).map
        (payload message.kId · attributes.attributes)) := by
  have hid : (Insertion.stringView (ascii "id=")).rendered = some (ascii "id=") := rfl
  have hkId : (Insertion.stringView message.kId).rendered = some message.kId := rfl
  have hidentified := ((LogStream.carries_construct loggers logger
    message.kLevel).insert_text hid).insert_text hkId
  have hrendered := MessageWriter.carries_foldl (message.render params) hidentified false
  have hcarries := carries_foldl_appendAttribute hrendered attributes.attributes
  unfold messageStream
  convert hcarries using 1
  cases concatenation (message.render params) with
  | none => rfl
  | some rendered =>
      by_cases hempty : rendered = [] <;> simp [payload, MessageWriter.separated, hempty]

end

end Logger

end AdaptivePi.Log
