import NativeWeave.Proofs.Binding.Description
import NativeWeave.Proofs.Category.DeclaredHash

namespace NativeWeave

/-!
# What the text of a declaration is made of

The text that the hash of a declaration is taken over has its parts set apart by zero bytes.  When no
name within reach has a NUL character, none of the parts has a zero byte, and the parts can be told
from the text.  The full name of a struct tells which struct it is as long as the simple names of
structs have no dots.
-/

/-- The text has no NUL character. -/
def NulFree (text : String) : Prop :=
  '\x00' ∉ text.toList

instance (text : String) : Decidable (NulFree text) :=
  inferInstanceAs (Decidable (¬ _))

namespace NulFree

variable {first second : String}

theorem append (front : NulFree first) (back : NulFree second) : NulFree (first ++ second) := by
  rw [NulFree, String.toList_append, List.mem_append, not_or]
  exact ⟨front, back⟩

theorem intercalate {separator : String} (between : NulFree separator) {texts : List String}
    (each : ∀ text ∈ texts, NulFree text) : NulFree (separator.intercalate texts) := by
  induction texts with
  | nil => exact String.intercalate_nil ▸ List.not_mem_nil
  | cons first more ih =>
    rw [List.forall_mem_cons] at each
    cases more with
    | nil => exact String.intercalate_singleton ▸ each.1
    | cons second others =>
      rw [String.intercalate_cons_cons]
      exact (each.1.append between).append (ih each.2)

theorem of_nat (value : Nat) : NulFree (toString value) := by
  intro member
  change '\x00' ∈ (Nat.repr value).toList at member
  rw [Nat.repr_eq_ofList_toDigits, String.toList_ofList] at member
  have digit := Nat.isDigit_of_mem_toDigits (by decide) (by decide) member
  cases digit

/-- A text without NUL characters is stored without zero bytes. -/
theorem zero_not_mem_ofString {text : String} (free : NulFree text) : 0 ∉ Bytes.ofString text := by
  rw [Bytes.ofString_eq_flatMap, List.mem_flatMap]
  rintro ⟨c, listed, zero⟩
  suffices c = '\x00' from free (this ▸ listed)
  have lead : ∀ value : Nat, 0 < value → value < 256 → (0 : UInt8) ≠ UInt8.ofNat value := by
    intro value positive small same
    have numbers := congrArg UInt8.toNat same
    rw [UInt8.toNat_ofNat_of_lt' small] at numbers
    exact absurd positive (numbers ▸ Nat.lt_irrefl 0)
  unfold String.utf8EncodeChar at zero
  dsimp only at zero
  split at zero
  · next small =>
    rw [List.mem_singleton] at zero
    have numbers := congrArg UInt8.toNat zero
    rw [UInt8.toNat_ofNat_of_lt' (Nat.lt_of_le_of_lt small (by decide))] at numbers
    exact Char.ext (UInt32.toNat_inj.mp numbers.symm)
  · split at zero
    · simp only [List.mem_cons, List.not_mem_nil, or_false] at zero
      rcases zero with zero | zero <;> exact absurd zero (lead _ (by omega) (by omega))
    · split at zero
      · simp only [List.mem_cons, List.not_mem_nil, or_false] at zero
        rcases zero with zero | zero | zero <;> exact absurd zero (lead _ (by omega) (by omega))
      · simp only [List.mem_cons, List.not_mem_nil, or_false] at zero
        rcases zero with zero | zero | zero | zero <;>
          exact absurd zero (lead _ (by omega) (by omega))

end NulFree

/-! ## Names -/

/-- Neither part of the name has a NUL character, and the simple name has no dot. -/
@[mk_iff] structure QualifiedName.Plain (name : QualifiedName) : Prop where
  space : NulFree name.namespaceName
  simple : NulFree name.name
  dotless : '.' ∉ name.name.toList

namespace QualifiedName.Plain

variable {name other : QualifiedName}

theorem nulFree_full (plain : name.Plain) : NulFree name.full := by
  unfold QualifiedName.full
  split
  · exact plain.simple
  · exact (plain.space.append (by decide)).append plain.simple

/-- A struct is known by its full name. -/
theorem eq_of_full_eq (plain : name.Plain) (also : other.Plain) (same : name.full = other.full) :
    name = other := by
  have dotted : ∀ {bare within : QualifiedName}, bare.Plain →
      bare.namespaceName.isEmpty = true → within.namespaceName.isEmpty = false →
        bare.full ≠ within.full := by
    intro bare within plain none some same
    rw [full_of_isEmpty none, full_of_not_isEmpty some] at same
    refine plain.dotless ?_
    rw [same]
    simp
  cases none : name.namespaceName.isEmpty <;> cases none' : other.namespaceName.isEmpty
  · rw [full_of_not_isEmpty none, full_of_not_isEmpty none'] at same
    have parsed := congrArg parse same
    rwa [parse_append plain.dotless, parse_append also.dotless] at parsed
  · exact absurd same.symm (dotted also none' none)
  · exact absurd same (dotted plain none none')
  · rw [full_of_isEmpty none, full_of_isEmpty none'] at same
    have spaces := (String.isEmpty_iff.mp none).trans (String.isEmpty_iff.mp none').symm
    cases name
    cases other
    rw [mk.injEq]
    exact ⟨spaces, same⟩

end QualifiedName.Plain

namespace Signature

mutual

/-- All names in the signature are plain. -/
def Plain : Signature → Prop
  | .primitive _ => True
  | .named name => name.Plain
  | .generic base arguments => base.Plain ∧ PlainAll arguments
  | .array element => element.Plain
  | .byRef target => target.Plain

/-- All names in several signatures are plain. -/
def PlainAll : List Signature → Prop
  | [] => True
  | signature :: more => signature.Plain ∧ PlainAll more

end

mutual

theorem nulFree_text : (signature : Signature) → signature.Plain → NulFree signature.text
  | .primitive kind, _ => by cases kind <;> decide
  | .named _, plain => QualifiedName.Plain.nulFree_full plain
  | .generic _ arguments, plain =>
    ((plain.1.nulFree_full.append (by decide)).append
      (.intercalate (by decide) (nulFree_texts arguments plain.2))).append (by decide)
  | .array element, plain => (nulFree_text element plain).append (by decide)
  | .byRef target, plain => .append (by decide) (nulFree_text target plain)

theorem nulFree_texts : (signatures : List Signature) → PlainAll signatures →
    ∀ text ∈ texts signatures, NulFree text
  | [], _ => List.forall_mem_nil _
  | signature :: more, plain =>
    List.forall_mem_cons.mpr ⟨nulFree_text signature plain.1, nulFree_texts more plain.2⟩

end

end Signature

/-! ## Scopes -/

/-- No name in the declaration has a NUL character, neither its own nor what the native side calls it,
and no simple name has a dot. -/
@[mk_iff] structure TypeDef.Plain (config : Config) (type : TypeDef) : Prop where
  name : type.qualifiedName.Plain
  structName : NulFree (config.nativeTypeName type Annotation.nativeStruct)
  enumName : NulFree (config.nativeTypeName type Annotation.nativeEnum)
  fields : ∀ field ∈ type.fields, NulFree field.name ∧ field.type.Plain

namespace Scope

/-- No name within reach has a NUL character, and no simple name has a dot. -/
@[mk_iff] structure Plain (scope : Scope) : Prop where
  root : scope.config.root.Plain
  types : ∀ type ∈ scope.module.types ++ scope.context.modules.flatMap (·.types),
    type.Plain scope.config

variable {scope : Scope} {name : QualifiedName} {type : TypeDef}

theorem mem_of_resolve? (found : scope.resolve? name = some type) :
    type ∈ scope.module.types ++ scope.context.modules.flatMap (·.types) := by
  unfold resolve? at found
  split at found
  · next inModule =>
    cases found
    exact List.mem_append_left _ (Module.mem_of_type? inModule).1
  · rcases List.exists_of_findSome?_eq_some found with ⟨module, listed, inModule⟩
    exact List.mem_append_right _
      (List.mem_flatMap.mpr ⟨module, listed, (Module.mem_of_type? inModule).1⟩)

theorem Plain.resolved (plain : scope.Plain) (found : scope.resolve? name = some type) :
    type.Plain scope.config :=
  plain.types type (mem_of_resolve? found)

theorem Plain.name_of_resolve? (plain : scope.Plain) (found : scope.resolve? name = some type) :
    name.Plain :=
  qualifiedName_of_resolve? found ▸ (plain.resolved found).name

end Scope

/-! ## Labels -/

/-- Neither the label of the category nor the name of the struct that it depends on has a NUL
character in it. -/
structure Category.Plain (category : Category) : Prop where
  label : NulFree category.label
  dependency : ∀ part, category.hashDependency? = some part → part.Plain

namespace Category.Plain

variable {category : Category}

theorem of_independent (label : NulFree category.label) (none : category.hashDependency? = none) :
    category.Plain :=
  ⟨label, fun _ depends => nomatch none.symm.trans depends⟩

theorem array (plain : category.Plain) (element : Signature) (dim : UInt32) :
    (Category.array category element dim).Plain where
  label := .append (.append (.append (by decide) (.of_nat dim.toNat)) (by decide)) plain.label
  dependency := plain.dependency

theorem list (plain : category.Plain) (element : Signature) :
    (Category.list category element).Plain where
  label := .append (by decide) plain.label
  dependency := plain.dependency

end Category.Plain

namespace Scope

variable {scope : Scope} {signature : Signature} {shape : MemberShape}

theorem Plain.constraint (plain : scope.Plain) (argument : Signature) :
    (((scope.nativeClass? argument).map (·.signature)).getD scope.config.rootSignature).Plain := by
  cases found : scope.nativeClass? argument with
  | none => exact plain.root
  | some type =>
    unfold nativeClass? at found
    rcases Option.bind_eq_some_iff.mp found with ⟨name, _, found⟩
    rcases Option.bind_eq_some_iff.mp found with ⟨other, resolved, found⟩
    split at found
    · cases found
      exact (plain.resolved resolved).name
    · cases found

/-- The label of a category that a declaration settles is made of names within reach. -/
theorem Plain.settled (plain : scope.Plain) (named : signature.Plain) {category : Category}
    (known : scope.outline signature shape = .ok (.settled category)) : category.Plain := by
  unfold outline primitiveOutline namedOutline genericOutline at known
  repeat' split at known
  all_goals cases known
  all_goals refine .of_independent ?_ rfl
  all_goals try decide
  · next type _ resolved _ _ _ =>
    exact .append (by decide) (plain.resolved resolved).enumName
  · exact .append (by decide) (Signature.nulFree_text _ named)
  · exact .append (by decide) (Signature.nulFree_text _ named)
  · exact .append (by decide) (Signature.nulFree_text _ named.2.1)
  · exact .append (by decide) (Signature.nulFree_text _ (plain.constraint _))

theorem plain_element {container : Outline} {element : Signature} (named : signature.Plain)
    (found : scope.outline signature shape = .ok container)
    (inside : container.element? = some element) : element.Plain := by
  unfold outline primitiveOutline namedOutline at found
  repeat' split at found
  all_goals try cases found
  all_goals try cases inside
  exact element_of_genericOutline found inside ▸ named.2.1

/-- The label of a category is made of names within reach. -/
theorem Plain.categoryOf (plain : scope.Plain) (signature : Signature) (named : signature.Plain)
    (shape : MemberShape) (category : Category)
    (known : scope.categoryOf signature shape = .ok category) : category.Plain := by
  rw [categoryOf_eq] at known
  split at known
  · cases known
  · next settled found =>
    cases known
    exact plain.settled named found
  · next struct owner found =>
    have resolved := (resolve?_of_outline found).1
    split at known
    · cases known
    · next repr _ =>
      cases known
      refine ⟨.append (.append (.append (by decide) ?_) (by decide)) ?_, ?_⟩
      · cases repr <;> decide
      · exact (plain.resolved resolved).structName
      · rintro part ⟨⟩
        exact plain.name_of_resolve? resolved
  · next element dim found =>
    have smaller := sizeOf_element_lt found rfl
    rcases bind_eq_ok_iff.mp known with ⟨inner, answer, wrapped⟩
    have inside := plain.categoryOf element (plain_element named found rfl) {} inner answer
    split at wrapped
    · cases wrapped
      exact inside.array element dim
    · cases wrapped
  · next element found =>
    have smaller := sizeOf_element_lt found rfl
    rcases bind_eq_ok_iff.mp known with ⟨inner, answer, wrapped⟩
    have inside := plain.categoryOf element (plain_element named found rfl) {} inner answer
    split at wrapped
    · cases wrapped
      exact inside.list element
    · cases wrapped
termination_by sizeOf signature

end Scope

/-! ## Reading a declaration back -/

/-- The text that the hash of a declaration is taken over. -/
def declarationText (name : String) (fields : List DeclaredField) : Bytes :=
  Bytes.ofString "declared-struct" ++ 0 :: Bytes.ofString name ++ fields.flatMap (·.bytes)

theorem declaredHash_eq (name : String) (fields : List DeclaredField) :
    declaredHash name fields = (sha256 (declarationText name fields)).toHex :=
  rfl

namespace DeclaredField

def parts (field : DeclaredField) : List String :=
  [field.name, field.category, field.nested.getD ""]

/-- No part has a NUL character, and only the absence of a hash leaves a part empty. -/
structure Plain (field : DeclaredField) : Prop where
  parts : ∀ part ∈ field.parts, NulFree part
  nested : field.nested ≠ some ""

/-- The parts of several fields tell the fields. -/
theorem eq_of_parts_eq {fields others : List DeclaredField} (plain : ∀ field ∈ fields, field.Plain)
    (also : ∀ field ∈ others, field.Plain)
    (same : fields.flatMap (·.parts) = others.flatMap (·.parts)) : fields = others := by
  induction fields generalizing others with
  | nil =>
    cases others with
    | nil => rfl
    | cons other more => cases same
  | cons field fields ih =>
    cases others with
    | nil => cases same
    | cons other others =>
      rw [List.forall_mem_cons] at plain also
      simp only [List.flatMap_cons, parts, List.cons_append, List.nil_append,
        List.cons.injEq] at same
      rcases same with ⟨name, category, nested, rest⟩
      rw [ih plain.2 also.2 rest]
      have inner : field.nested = other.nested := by
        have some := plain.1.nested
        have some' := also.1.nested
        cases one : field.nested <;> cases two : other.nested <;> simp_all
      cases field
      cases other
      simp_all

end DeclaredField

/-- All parts of the text of a declaration. -/
theorem declarationText_eq (name : String) (fields : List DeclaredField) :
    declarationText name fields = [0].intercalate
      (("declared-struct" :: name :: fields.flatMap (·.parts)).map Bytes.ofString) := by
  have parts : (fields.flatMap (·.parts)).flatMap (0 :: Bytes.ofString ·) =
      fields.flatMap (·.bytes) :=
    List.flatMap_assoc
  rw [List.map_cons, intercalate_singleton_cons, List.flatMap_map, List.flatMap_cons, parts,
    declarationText, List.append_assoc]

/-- The zero bytes of the text are where its parts end. -/
theorem splitOn_declarationText {name : String} {fields : List DeclaredField}
    (named : NulFree name) (plain : ∀ field ∈ fields, field.Plain) :
    (declarationText name fields).splitOn 0 =
      ("declared-struct" :: name :: fields.flatMap (·.parts)).map Bytes.ofString := by
  rw [declarationText_eq]
  refine List.splitOn_intercalate 0 (fun bytes piece => ?_) nofun
  rcases List.mem_map.mp piece with ⟨part, listed, rfl⟩
  refine NulFree.zero_not_mem_ofString ?_
  rcases List.mem_cons.mp listed with rfl | listed
  · decide
  rcases List.mem_cons.mp listed with rfl | listed
  · exact named
  rcases List.mem_flatMap.mp listed with ⟨field, member, listed⟩
  exact (plain field member).parts part listed

/-- A text has one declaration only. -/
theorem declarationText_inj {name other : String} {fields others : List DeclaredField}
    (named : NulFree name) (also : NulFree other) (plain : ∀ field ∈ fields, field.Plain)
    (plain' : ∀ field ∈ others, field.Plain)
    (same : declarationText name fields = declarationText other others) :
    name = other ∧ fields = others := by
  have pieces := congrArg (List.splitOn 0) same
  rw [splitOn_declarationText named plain, splitOn_declarationText also plain'] at pieces
  have parts := List.map_injective_iff.mpr (fun _ _ => Bytes.ofString_inj) pieces
  injection parts with _ parts
  injection parts with names parts
  exact ⟨names, DeclaredField.eq_of_parts_eq plain plain' parts⟩

end NativeWeave
