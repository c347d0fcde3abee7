import TypeConcepts.Environment.Exchange

/-!
Decay: a reference decays to what it points at, and any other type to itself.

A reference points at exactly one type, so each question about its referent is a question about
that type.
-/

namespace TypeConcepts.Environment

variable (env : Environment)

def isReference (type : Ty) : Bool := type.referent?.isSome

def referentIs (property : Ty → Bool) (type : Ty) : Bool :=
  (type.referent?.map property).getD false

def referentClones (type : Ty) : Bool := referentIs env.clone type

def referentBuildsPlainly (type : Ty) : Bool :=
  env.sized type
    && referentIs (fun target => env.sized target && env.buildsPlainly target [type]) type

def referentMoves (type : Ty) : Bool :=
  referentIs (fun target => env.sized target && env.builds target [target]) type

def referentSameAs (type other : Ty) : Bool := referentIs (sameAs · other) type

def decayCopyable (type : Ty) : Bool :=
  if isReference type then env.referentClones type else env.destructible type

def nothrowDecayCopyable (type : Ty) : Bool :=
  if isReference type then env.referentBuildsPlainly type
  else env.nothrowConstructibleFrom type [type]

def movableValue (type : Ty) : Bool :=
  if isReference type then env.referentMoves type && env.referentClones type
  else env.moveConstructible type

def decaysTo (type other : Ty) : Bool :=
  if isReference type then referentSameAs type other else sameAs type other

end TypeConcepts.Environment
