import IncludeClosure.Json.Token
/-!
# Json.Document — from tokens to a value

The tokens are taken one by one.  The open arrays and objects form a stack, and the top of the stack says what may come
next.  At the first token that may not come, and where the tokens end too early, the value is closed with `broken` in
that place.
-/
namespace IncludeClosure
namespace Json

/-- An open array or object, with what it holds so far, last one first. -/
inductive Frame where
  /-- After `[`: a value or `]`. -/
  | firstItem
  /-- After a comma in an array: a value. -/
  | item (items : List Value)
  /-- After a value in an array: a comma or `]`. -/
  | afterItem (items : List Value)
  /-- After an opening brace: a key or the closing one. -/
  | firstKey
  /-- After a comma in an object: a key. -/
  | key (members : List (Value × Value))
  /-- After a key: a colon. -/
  | colon (members : List (Value × Value)) (key : Value)
  /-- After a colon: a value. -/
  | member (members : List (Value × Value)) (key : Value)
  /-- After a value in an object: a comma or the closing brace. -/
  | afterMember (members : List (Value × Value))

namespace Frame

def takesValue : List Frame → Bool
  | [] | firstItem :: _ | item _ :: _ | member _ _ :: _ => true
  | _ => false

def takesKey : List Frame → Bool
  | firstKey :: _ | key _ :: _ => true
  | _ => false

/-- **What is wrong with a token** that may come nowhere, or not here. -/
def refuse : List Frame → Token → Break
  | item _ :: _, .closeArray => .skippedAs .trailingComma .noValue
  | key _ :: _, .closeObject => .skippedAs .trailingComma .keyNoString
  | afterItem _ :: _, _ => .plain .noCommaInArray
  | firstKey :: _, _ | key _ :: _, _ => .plain .keyNoString
  | colon _ _ :: _, _ => .plain .noColon
  | afterMember _ :: _, _ => .plain .noCommaInObject
  | _, _ => .plain .noValue

/-- **What is wrong when the tokens end.** -/
def refuseEnd : List Frame → Break
  | [] | item _ :: _ | member _ _ :: _ => .plain .endInValue
  | firstItem :: _ | afterItem _ :: _ => .plain .endInArray
  | key _ :: _ => .skippedAs .endInValue .endInObject
  | firstKey :: _ | colon _ _ :: _ | afterMember _ :: _ => .plain .endInObject

/-- The value that a frame is when it ends with `last`.  In the place of a key `asKey` stands before it. -/
def close (asKey last : Value) : Frame → Value
  | firstItem => .array [last]
  | item items | afterItem items => .array (last :: items).reverse
  | firstKey => .object [(asKey, last)]
  | key members | afterMember members => .object ((asKey, last) :: members).reverse
  | colon members k | member members k => .object ((k, last) :: members).reverse

/-- The value of all open frames when the innermost one ends with `last`. -/
def closeAll (asKey last : Value) : List Frame → Value
  | [] => last
  | frame :: outer => closeAll .null (frame.close asKey last) outer

end Frame

inductive Progress where
  /-- The value is not complete; the innermost open frame comes first. -/
  | inside (frames : List Frame)
  | complete (value : Value)
  | trailing (value : Value)
  | stopped (value : Value)

namespace Progress

def stop (frames : List Frame) (asKey : Value) (why : Break) : Progress :=
  .stopped (Frame.closeAll asKey (.broken why) frames)

/-- A value in the place of a key: only a string is one. -/
def putKey (members : List (Value × Value)) (outer frames : List Frame) (v : Value) : Progress :=
  match v with
  | .string _ => .inside (.colon members v :: outer)
  | _ => stop frames v (.plain .keyNoString)

/-- **A complete value** comes next. -/
def put (frames : List Frame) (v : Value) : Progress :=
  match frames with
  | [] => .complete v
  | .firstItem :: outer => .inside (.afterItem [v] :: outer)
  | .item items :: outer => .inside (.afterItem (v :: items) :: outer)
  | .member members key :: outer => .inside (.afterMember ((key, v) :: members) :: outer)
  | .firstKey :: outer => putKey [] outer frames v
  | .key members :: outer => putKey members outer frames v
  | _ => stop frames (.broken (.plain .noValue)) (Frame.refuse frames (.scalar v))

def openFrame (frames : List Frame) (frame : Frame) (empty : Value) (token : Token) : Progress :=
  if Frame.takesValue frames then .inside (frame :: frames) else stop frames empty (Frame.refuse frames token)

/-- A scalar that goes wrong: its own flaw counts where it may come. -/
def putFaulty (frames : List Frame) (isString : Bool) (why : Break) : Progress :=
  if Frame.takesValue frames || (isString && Frame.takesKey frames) then stop frames (.broken why) why
  else stop frames (.broken why) (Frame.refuse frames .stray)

/-- **One token.** -/
def step : Progress → Token → Progress
  | inside frames, token =>
    match token, frames with
    | .scalar v, _ => put frames v
    | .faulty isString why, _ => putFaulty frames isString why
    | .openArray, _ => openFrame frames .firstItem (.array []) .openArray
    | .openObject, _ => openFrame frames .firstKey (.object []) .openObject
    | .closeArray, .firstItem :: outer => put outer (.array [])
    | .closeArray, .afterItem items :: outer => put outer (.array items.reverse)
    | .closeObject, .firstKey :: outer => put outer (.object [])
    | .closeObject, .afterMember members :: outer => put outer (.object members.reverse)
    | .comma, .afterItem items :: outer => .inside (.item items :: outer)
    | .comma, .afterMember members :: outer => .inside (.key members :: outer)
    | .colon, .colon members key :: outer => .inside (.member members key :: outer)
    | token, frames => stop frames (.broken (.plain .noValue)) (Frame.refuse frames token)
  | complete v, _ => .trailing v
  | trailing v, _ => .trailing v
  | stopped v, _ => .stopped v

end Progress

structure Document where
  value : Value
  trailing : Bool

namespace Document

def ofProgress : Progress → Document
  | .inside frames =>
    { value := Frame.closeAll (.broken (.plain .endInValue)) (.broken (Frame.refuseEnd frames)) frames
      trailing := false }
  | .complete v => { value := v, trailing := false }
  | .trailing v => { value := v, trailing := true }
  | .stopped v => { value := v, trailing := false }

/-- **The document that a text holds.** -/
def ofText (text : List Char) : Document :=
  ofProgress ((Token.ofText text).foldl Progress.step (.inside []))

/-- **The value of a text that is a document from its first character to its last.** -/
def whole? (text : List Char) : Option Value :=
  let d := ofText text
  match d.value.skip, d.trailing with
  | .ok (), false => some d.value
  | _, _ => none

end Document
end Json
end IncludeClosure
