import Intercal.Eval
import Intercal.SystemLibrary

namespace Intercal.Store

inductive Request where
  | read (v : Variable)
  | write (v : Variable) (x : Word)
  | readElement (v : Variable) (subscripts : List Nat)
  | writeElement (v : Variable) (subscripts : List Nat) (x : Word)
  | redimension (v : Variable) (dimensions : List Nat)
  | stash (v : Variable)
  | retrieve (v : Variable)
  | ignore (v : Variable)
  | remember (v : Variable)
  | readOut (x : Word)
  | readOutArray (v : Variable)
  | writeIn (v : Variable)
  | chance (percent : Nat)
  | random (bound : Nat)
  | call (routine : Nat)
  | eval (e : Expr)
  | contents

inductive Reply where
  | done
  | number (n : Nat)
  | flag (b : Bool)
  | value (v : Value)
  | text (s : String)

namespace Request

def done (a : Action Unit) : Action Reply := do
  a
  return .done

def ask {α : Type} (f : Store → Except Fault α) : Action α := fun s => (f s, s)

def change {α : Type} (f : Store → α × Store) : Action α := fun s => ((.ok (f s).1), (f s).2)

def serve : Request → Action Reply
  | .read v => return .number (← ask (·.read v)).toNat
  | .write v x => done (Store.write v x)
  | .readElement v subs => return .number (← ask (·.readElement v subs)).toNat
  | .writeElement v subs x => done (Store.writeElement v subs x)
  | .redimension v dims => done (Store.redimension v dims)
  | .stash v => done (Store.stash v)
  | .retrieve v => done (Store.retrieve v)
  | .ignore v => done (Store.ignore v)
  | .remember v => done (Store.remember v)
  | .readOut x => done (Store.readOut x)
  | .readOutArray v => done (Store.readOutArray v)
  | .writeIn v => done (Store.writeIn v)
  | .chance p => return .flag (← change (Store.chance p))
  | .random bound => return .number (← change (Store.random bound)).toNat
  | .call routine => done (SystemLibrary.call routine)
  | .eval e => return .value (← e.value)
  | .contents => return .text (← ask fun s => .ok s.contents)

end Request

structure Served where
  reply : Except Fault Reply
  written : List UInt8

def serve (s : Store) : List Request → List Served × Store
  | [] => ([], s)
  | r :: rs =>
    let (reply, t) := s.run r.serve
    let (rest, u) := serve t rs
    (⟨reply, t.output.toList.drop s.output.size⟩ :: rest, u)

end Intercal.Store
