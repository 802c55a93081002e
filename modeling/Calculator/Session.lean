import Calculator.Expr.Climb

/-!
# Sessions

A session is a lexer and a parser that live through a row of requests.  The parser's waiting
tokens are its own: pulling from the lexer goes past them, and a new source does not drop them.

* `Request`, `Reply`   what can be asked, and what comes back;
* `Session.step`       one request;
* `Session.run`        all requests in turn.
-/

namespace Calculator

inductive Request where
  /-- the next result of the lexer -/
  | next
  /-- several results of the lexer -/
  | pull (count : Nat)
  | source
  | setSource (text : List Char)
  | radix
  | setRadix (radix : Nat)
  /-- a whole expression, numbers read in a radix -/
  | parse (radix : Nat)
  /-- an expression above a threshold -/
  | parseAt (threshold : Int) (radix : Nat)
  | consume (kind : Kind)
  | accept (kind : Kind)
  | reset
deriving DecidableEq

inductive Reply where
  | token (result : Except Error Token)
  | tokens (results : List (Except Error Token))
  | text (text : List Char)
  | number (n : Nat)
  | accepted
  | refused (error : Error)
  | expression (e : Expr)
  | unparsed (error : Error)
  | found (yes : Bool)
  | unfinished

namespace Session

/-- the reply to a parse, and the stream behind it -/
def parsed (s : Stream) : Outcome Expr → Reply × Stream
  | .done e after => (.expression e, after)
  | .failed e after => (.unparsed e, after)
  | .unfinished => (.unfinished, s)

/-- one request -/
def step (grammar : Grammar) (s : Stream) : Request → Reply × Stream
  | .next => (.token s.pull.1, s.pull.2)
  | .pull n =>
    let pulled := s.lexer.pull n
    (.tokens pulled.1, { s with lexer := pulled.2 })
  | .source => (.text s.lexer.source, s)
  | .setSource text => (.accepted, { s with lexer := s.lexer.setSource text })
  | .radix => (.number s.lexer.rules.radix.val, s)
  | .setRadix radix =>
    match s.lexer.setRadix radix with
    | .ok l => (.accepted, { s with lexer := l })
    | .error e => (.refused e, s)
  | .parse radix => parsed s (Setting.parse ⟨grammar, radix⟩ s)
  | .parseAt threshold radix => parsed s (Setting.parseFrom ⟨grammar, radix⟩ threshold s)
  | .consume kind =>
    match s.consume kind with
    | .done t after => (.token (.ok t), after)
    | .failed e after => (.token (.error e), after)
    | .unfinished => (.unfinished, s)
  | .accept kind =>
    match s.accept kind with
    | .done yes after => (.found yes, after)
    | .failed e after => (.refused e, after)
    | .unfinished => (.unfinished, s)
  | .reset => (.accepted, s.reset)

/-- all requests in turn, each reply with the stream behind it -/
def run (grammar : Grammar) (s : Stream) : List Request → List (Reply × Stream)
  | [] => []
  | r :: rs =>
    let answer := step grammar s r
    answer :: run grammar answer.2 rs

end Session
end Calculator
