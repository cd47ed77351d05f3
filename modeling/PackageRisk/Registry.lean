import PackageRisk.Rule

/-!
# Registries of rules

A registry holds rules under their names, each name once, in the order of registration. What
is offered as a rule is accepted if it has a name and can evaluate packages; a name that is
taken is refused and its rule stays.
-/

namespace PackageRisk

/-- Something that is offered as a rule. -/
structure Candidate where
  kind : String
  name : Value
  weight : Value
  description : Value
  enabled : Bool
  evaluation : Option Evaluation

/-- A rule as something that is offered. -/
def Rule.toCandidate (rule : Rule) : Candidate :=
  { kind := rule.kind, name := .text rule.name, weight := rule.weight,
    description := rule.description, enabled := rule.enabled,
    evaluation := some rule.evaluation }

/-- The rule that a candidate is, if it is one. -/
def Candidate.accept (c : Candidate) : Except Failure Rule :=
  match c.name with
  | .text name =>
    if name.isEmpty then .error (.rejectedRule .noName)
    else match c.evaluation with
      | none => .error (.rejectedRule (.noEvaluation name))
      | some evaluation => .ok
          { kind := c.kind, name, weight := c.weight, description := c.description,
            enabled := c.enabled, evaluation }
  | _ => .error (.rejectedRule .noName)

/-- Rules in the order of their registration. -/
structure Registry where
  rules : List Rule

namespace Registry

def empty : Registry := ⟨[]⟩

/-- The names of the rules, in order. -/
def names (r : Registry) : List String :=
  r.rules.map (·.name)

def size (r : Registry) : Nat :=
  r.rules.length

/-- The rule under a name. -/
def get? (r : Registry) (name : String) : Option Rule :=
  r.rules.find? fun rule => rule.name == name

/-- Whether a name is taken. -/
def has (r : Registry) (name : String) : Bool :=
  (r.get? name).isSome

/-- A registry with a rule more, if its name is not taken. -/
def add (r : Registry) (rule : Rule) : Except Failure Registry :=
  if r.has rule.name then .error (.duplicateRule rule.name) else .ok ⟨r.rules ++ [rule]⟩

/-- A registry with what is offered, if that is a rule and its name is not taken. -/
def register (r : Registry) (offered : Option Candidate) : Except Failure Registry :=
  match offered with
  | none => .error (.rejectedRule .nothing)
  | some c => do r.add (← c.accept)

/-- A registry without the rule under a name. -/
def unregister (r : Registry) (name : String) : Registry :=
  ⟨r.rules.filter fun rule => rule.name != name⟩

/-- The name that a key of any kind is; keys that are no texts name no rule. -/
def nameOf? : Value → Except Fault (Option String)
  | .text name => .ok (some name)
  | v => if v.canBeKey then .ok none
      else .error (.wrongKind ("unhashable type: '" ++ v.kindName ++ "'"))

/-- The rule under a key of any kind. -/
def lookup (r : Registry) (key : Value) : Except Fault (Option Rule) :=
  (nameOf? key).map fun name => name.bind r.get?

/-- A registry without the rule under a key of any kind; an empty one is not even searched. -/
def remove (r : Registry) (key : Value) : Except Fault Registry :=
  if r.rules.isEmpty then .ok r
  else (nameOf? key).map fun name => (name.map r.unregister).getD r

end Registry

end PackageRisk
