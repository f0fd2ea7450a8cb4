/-
  Equality of types is decidable.

  `==K` compares terms, so every rule that matches one type against itself needs equality of types
  to be computable.  The types are a nested family, for which it cannot be derived: the comparison
  is written out, one function for each member of the family and one for each container it is
  nested in, and proved to be equality.
-/
import CSemantics.Typing.Syntax

namespace CSemantics

mutual

/-- Comparison of types, constructor by constructor. -/
def CType.eqb : CType → CType → Bool
  | .t q m st, .t q' m' st' => q == q' && (Mods.eqb m m' && SimpleType.eqb st st')
termination_by structural T => T

def UType.eqb : UType → UType → Bool
  | .ut m st, .ut m' st' => Mods.eqb m m' && SimpleUType.eqb st st'
termination_by structural T => T

def SimpleType.eqb : SimpleType → SimpleType → Bool
  | .array k T, .array k' T' => k == k' && CType.eqb T T'
  | .nonArray n, .nonArray n' => SimpleNonArrayType.eqb n n'
  | _, _ => false
termination_by structural T => T

def SimpleUType.eqb : SimpleUType → SimpleUType → Bool
  | .array k T, .array k' T' => k == k' && UType.eqb T T'
  | .nonArray n, .nonArray n' => SimpleNonArrayType.eqb n n'
  | _, _ => false
termination_by structural T => T

def SimpleNonArrayType.eqb : SimpleNonArrayType → SimpleNonArrayType → Bool
  | .basic b, .basic b' => b == b'
  | .enumType s, .enumType s' => s == s'
  | .structType s, .structType s' => s == s'
  | .unionType s, .unionType s' => s == s'
  | .pointerType T, .pointerType T' => CType.eqb T T'
  | .functionType r ps, .functionType r' ps' => UType.eqb r r' && ParamDecl.eqbList ps ps'
  | _, _ => false
termination_by structural T => T

def ParamDecl.eqb : ParamDecl → ParamDecl → Bool
  | .type T, .type T' => CType.eqb T T'
  | .typedDeclaration T x, .typedDeclaration T' x' => CType.eqb T T' && x == x'
  | .variadic, .variadic => true
  | _, _ => false
termination_by structural T => T

def ParamDecl.eqbList : List ParamDecl → List ParamDecl → Bool
  | [], [] => true
  | p :: ps, p' :: ps' => ParamDecl.eqb p p' && ParamDecl.eqbList ps ps'
  | _, _ => false
termination_by structural T => T

def Mods.eqb : Mods → Mods → Bool
  | .mods f fs, .mods f' fs' => f == f' && FieldInfo.eqbOption fs fs'
termination_by structural T => T

def FieldInfo.eqbOption : Option FieldInfo → Option FieldInfo → Bool
  | none, none => true
  | some f, some f' => FieldInfo.eqb f f'
  | _, _ => false
termination_by structural T => T

def FieldInfo.eqb : FieldInfo → FieldInfo → Bool
  | .fieldInfo ds n ts os ps a, .fieldInfo ds' n' ts' os' ps' a' =>
    FieldInfo.eqbDecls ds ds' && (n == n' && (FieldInfo.eqbTypes ts ts' && (os == os' && (ps == ps' && a == a'))))
termination_by structural T => T

def FieldInfo.eqbDecls : List (CType × CId) → List (CType × CId) → Bool
  | [], [] => true
  | d :: ds, d' :: ds' => FieldInfo.eqbDecl d d' && FieldInfo.eqbDecls ds ds'
  | _, _ => false
termination_by structural T => T

def FieldInfo.eqbDecl : CType × CId → CType × CId → Bool
  | (T, x), (T', x') => CType.eqb T T' && x == x'
termination_by structural T => T

def FieldInfo.eqbTypes : List (CId × CType) → List (CId × CType) → Bool
  | [], [] => true
  | d :: ds, d' :: ds' => FieldInfo.eqbType d d' && FieldInfo.eqbTypes ds ds'
  | _, _ => false
termination_by structural T => T

def FieldInfo.eqbType : CId × CType → CId × CType → Bool
  | (x, T), (x', T') => x == x' && CType.eqb T T'
termination_by structural T => T

end

mutual

theorem CType.eqb_iff : ∀ T T' : CType, CType.eqb T T' = true ↔ T = T'
  | .t q m st, .t q' m' st' => by simp [CType.eqb, Mods.eqb_iff m m', SimpleType.eqb_iff st st']

theorem UType.eqb_iff : ∀ T T' : UType, UType.eqb T T' = true ↔ T = T'
  | .ut m st, .ut m' st' => by simp [UType.eqb, Mods.eqb_iff m m', SimpleUType.eqb_iff st st']

theorem SimpleType.eqb_iff : ∀ T T' : SimpleType, SimpleType.eqb T T' = true ↔ T = T'
  | .array k T, .array k' T' => by simp [SimpleType.eqb, CType.eqb_iff T T']
  | .nonArray n, .nonArray n' => by simp [SimpleType.eqb, SimpleNonArrayType.eqb_iff n n']
  | .array _ _, .nonArray _ => by simp [SimpleType.eqb]
  | .nonArray _, .array _ _ => by simp [SimpleType.eqb]

theorem SimpleUType.eqb_iff : ∀ T T' : SimpleUType, SimpleUType.eqb T T' = true ↔ T = T'
  | .array k T, .array k' T' => by simp [SimpleUType.eqb, UType.eqb_iff T T']
  | .nonArray n, .nonArray n' => by simp [SimpleUType.eqb, SimpleNonArrayType.eqb_iff n n']
  | .array _ _, .nonArray _ => by simp [SimpleUType.eqb]
  | .nonArray _, .array _ _ => by simp [SimpleUType.eqb]

theorem SimpleNonArrayType.eqb_iff :
    ∀ T T' : SimpleNonArrayType, SimpleNonArrayType.eqb T T' = true ↔ T = T'
  | .basic b, T' => by cases T' <;> simp [SimpleNonArrayType.eqb]
  | .enumType s, T' => by cases T' <;> simp [SimpleNonArrayType.eqb]
  | .structType s, T' => by cases T' <;> simp [SimpleNonArrayType.eqb]
  | .unionType s, T' => by cases T' <;> simp [SimpleNonArrayType.eqb]
  | .pointerType T, T' => by
    cases T' with
    | pointerType T' => simp [SimpleNonArrayType.eqb, CType.eqb_iff T T']
    | _ => simp [SimpleNonArrayType.eqb]
  | .functionType r ps, T' => by
    cases T' with
    | functionType r' ps' =>
      simp [SimpleNonArrayType.eqb, UType.eqb_iff r r', ParamDecl.eqbList_iff ps ps']
    | _ => simp [SimpleNonArrayType.eqb]

theorem ParamDecl.eqb_iff : ∀ p p' : ParamDecl, ParamDecl.eqb p p' = true ↔ p = p'
  | .type T, p' => by
    cases p' with
    | type T' => simp [ParamDecl.eqb, CType.eqb_iff T T']
    | _ => simp [ParamDecl.eqb]
  | .typedDeclaration T x, p' => by
    cases p' with
    | typedDeclaration T' x' => simp [ParamDecl.eqb, CType.eqb_iff T T']
    | _ => simp [ParamDecl.eqb]
  | .variadic, p' => by cases p' <;> simp [ParamDecl.eqb]

theorem ParamDecl.eqbList_iff :
    ∀ ps ps' : List ParamDecl, ParamDecl.eqbList ps ps' = true ↔ ps = ps'
  | [], [] => by simp [ParamDecl.eqbList]
  | [], _ :: _ => by simp [ParamDecl.eqbList]
  | _ :: _, [] => by simp [ParamDecl.eqbList]
  | p :: ps, p' :: ps' => by
    simp [ParamDecl.eqbList, ParamDecl.eqb_iff p p', ParamDecl.eqbList_iff ps ps']

theorem Mods.eqb_iff : ∀ m m' : Mods, Mods.eqb m m' = true ↔ m = m'
  | .mods f fs, .mods f' fs' => by simp [Mods.eqb, FieldInfo.eqbOption_iff fs fs']

theorem FieldInfo.eqbOption_iff :
    ∀ fs fs' : Option FieldInfo, FieldInfo.eqbOption fs fs' = true ↔ fs = fs'
  | none, none => by simp [FieldInfo.eqbOption]
  | none, some _ => by simp [FieldInfo.eqbOption]
  | some _, none => by simp [FieldInfo.eqbOption]
  | some f, some f' => by simp [FieldInfo.eqbOption, FieldInfo.eqb_iff f f']

theorem FieldInfo.eqb_iff : ∀ f f' : FieldInfo, FieldInfo.eqb f f' = true ↔ f = f'
  | .fieldInfo ds n ts os ps a, .fieldInfo ds' n' ts' os' ps' a' => by
    simp [FieldInfo.eqb, FieldInfo.eqbDecls_iff ds ds', FieldInfo.eqbTypes_iff ts ts']

theorem FieldInfo.eqbDecls_iff :
    ∀ ds ds' : List (CType × CId), FieldInfo.eqbDecls ds ds' = true ↔ ds = ds'
  | [], [] => by simp [FieldInfo.eqbDecls]
  | [], _ :: _ => by simp [FieldInfo.eqbDecls]
  | _ :: _, [] => by simp [FieldInfo.eqbDecls]
  | d :: ds, d' :: ds' => by
    simp [FieldInfo.eqbDecls, FieldInfo.eqbDecl_iff d d', FieldInfo.eqbDecls_iff ds ds']

theorem FieldInfo.eqbDecl_iff : ∀ d d' : CType × CId, FieldInfo.eqbDecl d d' = true ↔ d = d'
  | (T, x), (T', x') => by simp [FieldInfo.eqbDecl, CType.eqb_iff T T']

theorem FieldInfo.eqbTypes_iff :
    ∀ ds ds' : List (CId × CType), FieldInfo.eqbTypes ds ds' = true ↔ ds = ds'
  | [], [] => by simp [FieldInfo.eqbTypes]
  | [], _ :: _ => by simp [FieldInfo.eqbTypes]
  | _ :: _, [] => by simp [FieldInfo.eqbTypes]
  | d :: ds, d' :: ds' => by
    simp [FieldInfo.eqbTypes, FieldInfo.eqbType_iff d d', FieldInfo.eqbTypes_iff ds ds']

theorem FieldInfo.eqbType_iff : ∀ d d' : CId × CType, FieldInfo.eqbType d d' = true ↔ d = d'
  | (x, T), (x', T') => by simp [FieldInfo.eqbType, CType.eqb_iff T T']

end

instance : DecidableEq CType := fun T T' => decidable_of_iff _ (CType.eqb_iff T T')
instance : DecidableEq UType := fun T T' => decidable_of_iff _ (UType.eqb_iff T T')
instance : DecidableEq SimpleNonArrayType := fun n n' => decidable_of_iff _ (SimpleNonArrayType.eqb_iff n n')
instance : DecidableEq ParamDecl := fun p p' => decidable_of_iff _ (ParamDecl.eqb_iff p p')
instance : DecidableEq FieldInfo := fun f f' => decidable_of_iff _ (FieldInfo.eqb_iff f f')

deriving instance DecidableEq for TagInfo

end CSemantics
