import SqlFerry.Pass.Context
import SqlFerry.Plpgsql.Placeholders

/-! Messages and errors. -/
namespace SqlFerry.Plpgsql

open Tsql (Kind)

def convertPrint : Visit := fun recur site => do
  Edit.replaceToken site.node.startToken "RAISE NOTICE '%',"
  Visit.children recur site

/-- A string literal without the letter that marks it as national. -/
def plainLiteral (cs : List Char) : List Char :=
  match cs with
  | 'N' :: rest | 'n' :: rest => rest
  | _ => cs

/-- A literal message gets the placeholders of PL/pgSQL, any other is printed by `'%'`. -/
def convertMessage (message : Site Kind) (recur : Site Kind → Edit Unit) : Edit Unit := do
  match message.node with
  | .leaf _ _ token =>
    if token.kind = .stringLiteral then
      Edit.replaceToken token (.ofList (placeholders (plainLiteral token.text.toList)))
    else
      recur message
      Edit.insertBefore message.node "'%', "
  | .rule _ _ _ _ =>
    recur message
    Edit.insertBefore message.node "'%', "

/-- The arguments of `RAISERROR`, of which `commas` are over: the message and the values that it
shows stay, the severity and the state go. -/
def convertRaiseArguments (recur : Site Kind → Edit Unit) :
    Nat → List (Site Kind) → Edit Unit
  | _, [] => return
  | commas, part :: rest => do
    if part.kind = .comma then
      if commas + 1 < 3 then
        Edit.removeWithGap part
      convertRaiseArguments recur (commas + 1) rest
    else
      match commas with
      | 0 => convertMessage part recur
      | 1 | 2 => Edit.removeWithGap part
      | _ => recur part
      convertRaiseArguments recur commas rest

/-- `RAISERROR('text %d', 16, 1, @x)` becomes `RAISE EXCEPTION 'text %', _vX`. -/
def convertRaiseError : Visit := fun recur site => do
  match site.children.dropWhile (·.kind != .leftParen) with
  | [] => Visit.children recur site
  | left :: rest =>
    let keyword := site.node.startToken
    let paren := left.node.startToken
    let isGlued := paren.line == keyword.line && paren.column == keyword.stop.column
    Edit.replaceToken keyword "RAISE EXCEPTION"
    Edit.replaceToken paren (if isGlued then " " else "") true
    convertRaiseArguments recur 0 (rest.takeWhile (·.kind != .rightParen))
    (rest.dropWhile (·.kind != .rightParen)).forM Edit.removeWithGap

end SqlFerry.Plpgsql
