import ComponentRegistry.Script.Expression

/-!
# Markup elements

Elements with attributes and children.  A closing tag names what its opening tag names; between the
tags there are texts, elements, and expressions in braces.
-/

namespace ComponentRegistry.Script

open Script.Parser

/-- The current word with the hyphens and words that belong to it. -/
def markupWord : Parser String := do
  let t ← token
  if t.kind != .word then unexpected
  let s ← get
  let more := s.rest.takeWhile fun c => c == '-' || Text.isIdentifierPart c
  let name := t.text ++ String.ofList more
  rescan fun _ => .of .word name (s.rest.drop more.length)
  advance
  return name

/-- The name of a tag, with the names after its points or its colon. -/
def tagName : Parser String := do
  let first ← markupWord
  if ← eat ":" then
    return s!"{first}:{← markupWord}"
  let rec go : Nat → String → Parser String
    | 0, name => return name
    | fuel + 1, name => do
      if ← eat "." then go fuel s!"{name}.{← markupWord}" else return name
  go (← room) first

/-- An expression in braces; the opening one is taken, and `next` takes the closing one. -/
def braced (g : Grammar) (next : Parser Unit) : Parser Unit := do
  if !(← at_ "\x7d") then
    let e ← within withIn g.expression
    match e with
    | .sequence => note
    | _ => pure ()
  if !(← at_ "\x7d") then unexpected
  next

def attributeValue (g : Grammar) : Parser Unit := do
  if ← atKind .string then advance
  else if ← at_ "\x7b" then
    advance
    braced g advance
  else if ← at_ "<" then g.markup false
  else unexpected

def tagAttribute (g : Grammar) : Parser Unit := do
  if ← eat "\x7b" then
    expect "..."
    discard (g.assignment true)
    expect "\x7d"
  else
    discard markupWord
    if ← eat ":" then discard markupWord
    if ← at_ "=" then
      advanceAttribute
      attributeValue g

def tagAttributes (g : Grammar) : Parser Unit := do
  let step : Parser Bool := do
    if (← atAny ["/", ">"]) || (← atFinish) then return false
    tagAttribute g
    return true
  repeatWhile step (← room)

/-- What stands between the tags; ends before the closing tag, with its `<` taken. -/
def children (g : Grammar) : Parser Unit := do
  let step : Parser Bool := do
    if ← at_ "<" then
      if ← peekIs "/" then advance; return false
      g.markup true
      return true
    if ← at_ "\x7b" then
      advance
      if ← eat "..." then discard (g.assignment true)
      braced g advanceMarkup
      return true
    if ← atKind .markupText then advanceMarkup; return true
    unexpected
  repeatWhile step (← room)

/-- Take the `>` at the end of an element. -/
def closeAngle (inside : Bool) : Parser Unit := do
  if !(← at_ ">") then throw (.expected ">" (← token).text)
  if inside then advanceMarkup else advance

/-- An element or a fragment; `inside` says that it stands between the tags of another one. -/
def markupElement (g : Grammar) (inside : Bool) : Parser Unit := do
  expect "<"
  if ← at_ ">" then
    advanceMarkup
    children g
    expect "/"
    closeAngle inside
  else
    let name ← tagName
    if (← dialect).typed && (← atAny ["<", "<<"]) then typeArguments g
    tagAttributes g
    if ← eat "/" then closeAngle inside
    else
      if !(← at_ ">") then throw (.expected ">" (← token).text)
      advanceMarkup
      children g
      expect "/"
      let closing ← if ← at_ ">" then pure "" else tagName
      if closing != name then throw (.malformed "closing tag")
      closeAngle inside

end ComponentRegistry.Script
