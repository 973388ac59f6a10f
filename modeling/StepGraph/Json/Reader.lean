import StepGraph.Json.Token

/-!
# Reading documents

`Json.read?` reads a text that holds one document.  It takes the tokens one by one, with a stack of
the containers that are still open, so it is structural recursion on the list of tokens.

A container nested deeper than `Json.depthLimit` is unreadable, and so is an object with a key that
denotes no text; both are well formed all the same.
-/

namespace StepGraph

namespace Json

/-- Containers deeper than this are unreadable. -/
def depthLimit : Nat := 127

/-- A container that is still open, with what it holds so far in reverse. -/
inductive Frame where
  | arr (items : List Json)
  | obj (members : List (Option String × Json))
  /-- An object with a key whose value is still to come. -/
  | keyed (members : List (Option String × Json)) (key : Option String)

/-- What a text may go on with. -/
inductive Expecting where
  | value
  /-- The first item of an array, or its end. -/
  | itemOrEnd
  /-- The first key of an object, or its end. -/
  | keyOrEnd
  | key
  | colon
  /-- A comma, or the end of the container. -/
  | commaOrEnd
  /-- Nothing more: the document is complete. -/
  | nothing (document : Json)

/-- A document read in part. -/
structure Progress where
  /-- The open containers, the innermost first. -/
  stack : List Frame
  expecting : Expecting

namespace Progress

/-- Nothing read so far. -/
def start : Progress := ⟨[], .value⟩

/-- Puts a complete value where it belongs. -/
def place (value : Json) : List Frame → Option Progress
  | [] => some ⟨[], .nothing value⟩
  | .arr items :: rest => some ⟨.arr (value :: items) :: rest, .commaOrEnd⟩
  | .keyed members key :: rest => some ⟨.obj ((key, value) :: members) :: rest, .commaOrEnd⟩
  | .obj _ :: _ => none

/-- The value of a complete container. -/
def closed : Frame → Json
  | .arr items => .arr items.reverse
  | .obj members | .keyed members _ =>
    match members.reverse.mapM fun m => m.1.map fun key => (key, m.2) with
    | some members => .obj members
    | none => .unreadable

/-- Whether a stack has no more frames than a limit. -/
def isWithin : Nat → List Frame → Bool
  | _, [] => true
  | 0, _ :: _ => false
  | limit + 1, _ :: rest => isWithin limit rest

/-- Closes the innermost container. -/
def close (stack : List Frame) : Option Progress :=
  match stack with
  | [] => none
  | frame :: rest => place (if isWithin depthLimit stack then closed frame else .unreadable) rest

/-- Takes one token. -/
def step? (p : Progress) (token : Token) : Option Progress :=
  match p.expecting, token, p.stack with
  | .value, .openArr, stack | .itemOrEnd, .openArr, stack => some ⟨.arr [] :: stack, .itemOrEnd⟩
  | .value, .openObj, stack | .itemOrEnd, .openObj, stack => some ⟨.obj [] :: stack, .keyOrEnd⟩
  | .value, .scalar value, stack | .itemOrEnd, .scalar value, stack => place value stack
  | .value, .text text, stack | .itemOrEnd, .text text, stack =>
    place ((text.map Json.str).getD .unreadable) stack
  | .itemOrEnd, .closeArr, stack => close stack
  | .keyOrEnd, .closeObj, stack => close stack
  | .keyOrEnd, .text key, .obj members :: rest
  | .key, .text key, .obj members :: rest => some ⟨.keyed members key :: rest, .colon⟩
  | .colon, .colon, stack => some ⟨stack, .value⟩
  | .commaOrEnd, .comma, .arr items :: rest => some ⟨.arr items :: rest, .value⟩
  | .commaOrEnd, .comma, .obj members :: rest => some ⟨.obj members :: rest, .key⟩
  | .commaOrEnd, .closeArr, .arr items :: rest => close (.arr items :: rest)
  | .commaOrEnd, .closeObj, .obj members :: rest => close (.obj members :: rest)
  | _, _, _ => none

/-- Takes tokens in turn. -/
def run? (p : Progress) : List Token → Option Progress
  | [] => some p
  | token :: rest => (p.step? token).bind fun p => p.run? rest

end Progress

/-- Reads a text that holds one document. -/
def read? (text : String) : Option Json := do
  let tokens ← Token.ofText? text.toList
  let progress ← Progress.start.run? tokens
  match progress.expecting with
  | .nothing document => some document
  | _ => none

end Json

end StepGraph
