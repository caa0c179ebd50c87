import AdaptivePi.Log.LogicalRecord

/-!
`Logger::LogWith` of `logger.h` with what it uses of `modelled_message.h`,
`message_attributes.h`, `message_writer.h` and `logger.cpp`: the ID, the text
that the message renders, and the attributes go into one stream; the trace hook
is called afterwards. The static assertions of `LogWith` are fields of the types
of messages and of attribute tuples.
-/

namespace AdaptivePi.Log

open Foundation

/-- The loop body of `IsValidMessageId`. -/
def allowedInMessageId (character : UInt8) : Bool :=
  (character ≥ 65 && character ≤ 90) || (character ≥ 97 && character ≤ 122) ||
    (character ≥ 48 && character ≤ 57) || character = 95

def isValidMessageId (id : Bytes) : Bool :=
  match id with
  | [] => false
  | _ => id.all allowedInMessageId

structure Location where
  file : Bytes
  line : UInt32
  deriving DecidableEq

structure Tag where
  value : Bytes
  deriving DecidableEq

/-- The types that `kSupportedAttribute` admits. -/
inductive Attribute where
  | location (location : Location)
  | tag (tag : Tag)
  deriving DecidableEq

inductive AttributeKind where
  | location
  | tag
  deriving DecidableEq

def Attribute.kind : Attribute → AttributeKind
  | .location _ => .location
  | .tag _ => .tag

def kValidAttributes (kinds : List AttributeKind) : Bool :=
  kinds.count .location ≤ 1 && kinds.count .tag ≤ 1

/-- A tuple of attributes that `LogWith` accepts. -/
structure AttributeTuple where
  attributes : List Attribute
  valid : kValidAttributes (attributes.map Attribute.kind) = true

/-- A modelled message type with its routing. `render` gives the values that
`Render` inserts for the parameters. -/
structure ModelledMessage (Params : Type) where
  kId : Bytes
  kLevel : LogLevel
  render : Params → List Insertion
  kLoggerEnabled : Bool
  kTraceEnabled : Bool
  kId_valid : isValidMessageId kId = true

structure MessageWriter where
  stream : LogStream
  textStarted : Bool

namespace MessageWriter

/-- The values that return before the separator is considered. -/
def skips : Insertion → Bool
  | .stringView value => value.isEmpty
  | .string value => value.isEmpty
  | .cString (some memory) => memory.headD 0 = 0
  | _ => false

def insert (writer : MessageWriter) (insertion : Insertion) : MessageWriter :=
  match insertion with
  | .cString none => { writer with stream := writer.stream.insert (.cString none) }
  | _ =>
      if skips insertion then writer
      else
        let separated :=
          if writer.textStarted then writer.stream
          else writer.stream.insert (.stringView (ascii " "))
        { stream := separated.insert insertion, textStarted := true }

end MessageWriter

namespace Logger

def appendAttributeValue (stream : LogStream) : Bytes → LogStream
  | [] => stream
  | character :: rest =>
      if stream.failed then stream
      else
        let escaped :=
          if character = 92 ∨ character = 34 then stream.insert (.char 92) else stream
        appendAttributeValue (escaped.insert (.char character)) rest

def uint32 : IntegralType := ⟨32, false, by decide⟩

def appendAttribute (stream : LogStream) : Attribute → LogStream
  | .location location =>
      let opened := stream.insert (.stringView (ascii " location=\""))
      (((appendAttributeValue opened location.file).insert (.char 58)).insert
        (.integer uint32 location.line.toBitVec)).insert (.char 34)
  | .tag tag =>
      let opened := stream.insert (.stringView (ascii " tag=\""))
      (appendAttributeValue opened tag.value).insert (.char 34)

section

variable {Params : Type} (loggers : LoggerPtr → Logger)

/-- The stream when the message has rendered and the attributes follow. -/
def messageStream (this : LoggerPtr) (attributes : AttributeTuple)
    (message : ModelledMessage Params) (params : Params) : LogStream :=
  let stream := LogStream.construct loggers this message.kLevel
  let identified := (stream.insert (.stringView (ascii "id="))).insert (.stringView message.kId)
  let writer := (message.render params).foldl MessageWriter.insert ⟨identified, false⟩
  attributes.attributes.foldl appendAttribute writer.stream

/-- The stream is destroyed, and so submitted, before the trace hook runs. -/
def logWith (this : LoggerPtr) (attributes : AttributeTuple)
    (message : ModelledMessage Params) (params : Params) : LogProgram Params Unit :=
  let logged : LogProgram Params Unit :=
    if message.kLoggerEnabled then
      if (loggers this).isEnabled message.kLevel then
        .ask (.render params) fun _ =>
          (messageStream loggers this attributes message params).destroy loggers
      else .done ()
    else .done ()
  logged.bind fun _ =>
    if message.kTraceEnabled then .ask (.traceArti params) fun _ => .done () else .done ()

/-- `Log` passes an empty tuple of attributes. -/
def log (this : LoggerPtr) (message : ModelledMessage Params) (params : Params) :
    LogProgram Params Unit :=
  logWith loggers this ⟨[], rfl⟩ message params

end

end Logger

end AdaptivePi.Log
