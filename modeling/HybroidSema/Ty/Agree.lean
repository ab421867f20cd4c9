import HybroidSema.Ty.Basic

/-!
# When two types agree

Checking compares types by `Ty.agrees`, which is deliberately coarser than equality:

* the error sentinel and the library wildcard agree with every type, so that one mistake is
  reported once;
* the fixed-point types agree with each other;
* `number` agrees with every enum, in both directions;
* an entity agrees with `entity`, the entity of unknown kind;
* classes, entities and enums agree by environment and name;
* functions agree by parameters and returns, whatever their generics.

Because of the wildcards the relation is not transitive.
-/

namespace HybroidSema.Ty

mutual
/-- Whether a value of one type is accepted where the other type is expected. -/
def agrees : Ty → Ty → Bool
  | .invalid, _ => true
  | .object, _ => true
  | _, .invalid => true
  | _, .object => true
  | .basic .number, .enum _ _ => true
  | .enum _ _, .basic .number => true
  | .named _ _ .entityDecl, .rawEntity => true
  | .rawEntity, .named _ _ .entityDecl => true
  | .basic a, .basic b => a == b
  | .fixed _, .fixed _ => true
  | .named ea na ka, .named eb nb kb => ea == eb && na == nb && ka == kb
  | .enum ea na, .enum eb nb => ea == eb && na == nb
  | .function pa ra _, .function pb rb _ => allAgree pa pb && allAgree ra rb
  | .container ka ea, .container kb eb => ka == kb && ea.agrees eb
  | .variadic a, .variadic b => a.agrees b
  | .generic a, .generic b => a == b
  | .rawEntity, .rawEntity => true
  | _, _ => false

/-- Whether two lists have the same length and agree position by position. -/
def allAgree : List Ty → List Ty → Bool
  | [], [] => true
  | a :: as, b :: bs => a.agrees b && allAgree as bs
  | _, _ => false
end

end HybroidSema.Ty
