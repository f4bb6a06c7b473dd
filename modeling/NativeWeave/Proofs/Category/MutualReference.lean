import NativeWeave.Proofs.Category.Query

namespace NativeWeave

/-!
# Structs that refer to each other

When two structs refer to each other, the hash that is remembered of one of them while the other is
busy has the mark of the busy one in it.  Asked for by itself the struct has a hash without that
mark.  Which of the two a member contributes depends on what was asked before.
-/

open Remembering

namespace Scope

/-- The declaration has one field, which is exposed and refers to the other struct. -/
structure RefersBy (scope : Scope) (name part : QualifiedName) (field : Field) (label : String) :
    Prop where
  declared : ∃ type, scope.resolve? name = some type ∧ type.instanceFields = [field]
  exposed : ∃ attr,
    scope.config.findAnnotation? field.attributes Annotation.nativeProperty = some attr ∧
      ∃ category, scope.categoryOf field.type attr.shape = .ok category ∧
        category.label = label ∧ category.hashDependency? = some part

variable {scope : Scope} {memory : Memory} {busy : List QualifiedName}
  {name part first second : QualifiedName} {field forth back : Field}
  {label forthLabel backLabel : String}

theorem declaredHashWith_of_found {hash : String} (found : memory.hash? name = some hash) :
    scope.declaredHashWith busy name memory = (hash, memory) := by
  rw [declaredHashWith, get_bind_apply, found]
  rfl

theorem declaredHashWith_of_mem (scope : Scope) {memory : Memory}
    (missing : memory.hash? name = none) (occupied : name ∈ busy) :
    scope.declaredHashWith busy name memory = (cycleMark name, memory) := by
  rw [declaredHashWith, get_bind_apply, missing]
  dsimp only
  rw [dif_pos occupied]
  rfl

/-- The hash of a struct about which nothing is remembered is made from its fields. -/
theorem declaredHashWith_of_resolved {type : TypeDef} {later : Memory} {fields : List DeclaredField}
    (missing : memory.hash? name = none) (free : name ∉ busy)
    (resolved : scope.resolve? name = some type)
    (run : scope.declaredFields (name :: busy) type.instanceFields memory = (fields, later)) :
    let hash := declaredHash name.full fields
    scope.declaredHashWith busy name memory = (hash, later.withHash name hash) := by
  rw [declaredHashWith, get_bind_apply, missing]
  dsimp only
  rw [dif_neg free]
  change StateT.run _ memory = _
  split
  · next other found =>
    cases resolved.symm.trans found
    exact bind_apply_of run
  · next found => cases resolved.symm.trans found

theorem declaredHashWith_of_unresolved (missing : memory.hash? name = none) (free : name ∉ busy)
    (unresolved : scope.resolve? name = none) :
    let hash := declaredHash name.full []
    scope.declaredHashWith busy name memory = (hash, memory.withHash name hash) := by
  rw [declaredHashWith, get_bind_apply, missing]
  dsimp only
  rw [dif_neg free]
  change StateT.run _ memory = _
  split
  · next other found => cases unresolved.symm.trans found
  · rfl

/-- Classification changes nothing of what is remembered about hashes. -/
theorem exists_classify (sound : memory.Sound scope) (type : Signature) (shape : MemberShape) :
    ∃ later, scope.classify type shape memory = (scope.categoryOf type shape, later) ∧
      later.Sound scope ∧ later.hashes = memory.hashes := by
  rcases scope.keeps_classifyWith memory.hashes [] type shape (fun _ => nofun) memory
    ⟨sound, rfl⟩ with ⟨answer, kept, same⟩
  exact ⟨_, Prod.ext answer rfl, kept, same⟩

/-- The hash of a struct with one field is made from the hash of the struct that the field refers
to, and both are remembered. -/
theorem RefersBy.run (refers : scope.RefersBy name part field label) (sound : memory.Sound scope)
    (missing : memory.hash? name = none) (free : name ∉ busy) :
    ∃ seen : Memory, seen.Sound scope ∧ seen.hashes = memory.hashes ∧
      ∀ nested later, scope.declaredHashWith (name :: busy) part seen = (nested, later) →
        let hash := declaredHash name.full [⟨field.name, label, some nested⟩]
        scope.declaredHashWith busy name memory = (hash, later.withHash name hash) := by
  rcases refers with ⟨⟨type, resolved, only⟩, attr, shown, category, known, rfl, depends⟩
  rcases exists_classify sound field.type attr.shape with ⟨seen, classified, kept, same⟩
  rw [known] at classified
  refine ⟨seen, kept, same, fun nested later step => ?_⟩
  have nothing : ∀ memory, scope.declaredFields (name :: busy) [] memory = ([], memory) := by
    intro memory
    rw [declaredFields]
    rfl
  have fields : scope.declaredFields (name :: busy) type.instanceFields memory =
      ([⟨field.name, category.label, some nested⟩], later) := by
    rw [only, declaredFields, shown]
    dsimp only
    rw [bind_apply_of classified]
    dsimp only
    rw [depends]
    dsimp only
    rw [bind_apply_of step, pure_bind, bind_apply_of (nothing later)]
    rfl
  exact declaredHashWith_of_resolved missing free resolved fields

/-- Of two structs that refer to each other by one field each, the hash of the second is remembered
with the mark of the first in it when the hash of the first is asked for. -/
theorem hashes_of_pair (refers : scope.RefersBy first second forth forthLabel)
    (refersBack : scope.RefersBy second first back backLabel) (different : first ≠ second) :
    let inner := declaredHash second.full [⟨back.name, backLabel, some (cycleMark first)⟩]
    (scope.declaredHashWith [] first {}).1 =
        declaredHash first.full [⟨forth.name, forthLabel, some inner⟩] ∧
      (scope.declaredHashWith [] first {}).2.hash? second = some inner := by
  have empty : ∀ seen : Memory, seen.hashes = [] → ∀ name, seen.hash? name = none := by
    intro seen nothing name
    rw [Memory.hash?, nothing, List.find?_nil, Option.map_none]
  rcases refers.run faithful_empty.sound (empty {} rfl first) List.not_mem_nil with
    ⟨seen, sound, same, outer⟩
  have fresh : second ∉ [first] := fun member => different (List.mem_singleton.mp member).symm
  rcases refersBack.run sound (empty seen same second) fresh with ⟨deeper, _, still, nested⟩
  have marked := declaredHashWith_of_mem scope (empty deeper (still.trans same) first)
    (List.mem_cons_of_mem second (List.mem_singleton.mpr rfl))
  rw [outer _ _ (nested _ _ marked)]
  refine ⟨rfl, ?_⟩
  rw [Memory.hash?_withHash, if_neg different, Memory.hash?_withHash, if_pos rfl]

theorem hashOverride?_eq {owner : QualifiedName} {category : Category}
    (depends : category.hashDependency? = some part)
    (apart : (category.embedded?.isSome && scope.isLocal part) = false) (other : part ≠ owner) :
    scope.hashOverride? owner category memory =
      (some (scope.declaredHashWith [] part memory).1,
        (scope.declaredHashWith [] part memory).2) := by
  rw [hashOverride?, depends]
  dsimp only
  rw [apart, if_neg Bool.false_ne_true, if_neg other]
  rfl

end Scope

namespace Sample

/-- Two structs that hold lists of each other. -/
def left : TypeDef := struct "Left" [exposed "others" (listOf "Right")]

def right : TypeDef := struct "Right" [exposed "others" (listOf "Left")]

def rings : Scope := scope [left, right]

theorem reprOf?_left : rings.reprOf? left = some .generic := by
  have own : rings.BindsFields left := by constructor <;> decide
  have resolved : rings.resolve? left.qualifiedName = some left := by decide
  refine own.reprOf?_of_not_mem resolved (Scope.not_mem_flatStructs_of_element resolved
    (List.mem_singleton.mpr rfl) rfl rfl rfl)

theorem reprOf?_right : rings.reprOf? right = some .generic := by
  have own : rings.BindsFields right := by constructor <;> decide
  have resolved : rings.resolve? right.qualifiedName = some right := by decide
  refine own.reprOf?_of_not_mem resolved (Scope.not_mem_flatStructs_of_element resolved
    (List.mem_singleton.mpr rfl) rfl rfl rfl)

theorem left_refersBy : rings.RefersBy left.qualifiedName right.qualifiedName
    (exposed "others" (listOf "Right")) "list:struct[generic]:Right" where
  declared := ⟨left, by decide, rfl⟩
  exposed := ⟨_, rfl, _, Scope.categoryOf_structList rfl rfl reprOf?_right, by decide, rfl⟩

theorem right_refersBy : rings.RefersBy right.qualifiedName left.qualifiedName
    (exposed "others" (listOf "Left")) "list:struct[generic]:Left" where
  declared := ⟨right, by decide, rfl⟩
  exposed := ⟨_, rfl, _, Scope.categoryOf_structList rfl rfl reprOf?_left, by decide, rfl⟩

end Sample

namespace Scope

theorem hashOverride?_depends_on_earlier_ring :
    (Sample.rings.hashOverride? ⟨"Game", "Owner"⟩ (Sample.listCategory "Right")
      (Sample.rings.remembered [.hash ⟨"Game", "Owner"⟩ (Sample.listCategory "Left")])).1 ≠
    (Sample.rings.hashOverride? ⟨"Game", "Owner"⟩ (Sample.listCategory "Right") {}).1 := by
  have different : Sample.left.qualifiedName ≠ Sample.right.qualifiedName := by decide
  have earlier := (hashes_of_pair Sample.left_refersBy Sample.right_refersBy different).2
  have fresh := (hashes_of_pair Sample.right_refersBy Sample.left_refersBy different.symm).1
  have asked : ∀ name memory, name ≠ "Owner" →
      Sample.rings.hashOverride? ⟨"Game", "Owner"⟩ (Sample.listCategory name) memory =
        (some (Sample.rings.declaredHashWith [] ⟨"Game", name⟩ memory).1,
          (Sample.rings.declaredHashWith [] ⟨"Game", name⟩ memory).2) :=
    fun name memory other => hashOverride?_eq rfl rfl fun same => other (QualifiedName.mk.inj same).2
  have known : Sample.rings.remembered
      [.hash ⟨"Game", "Owner"⟩ (Sample.listCategory "Left")] =
        (Sample.rings.declaredHashWith [] Sample.left.qualifiedName {}).2 :=
    congrArg Prod.snd (asked "Left" {} (by decide))
  rw [known, asked "Right" _ (by decide), asked "Right" _ (by decide)]
  change some (Sample.rings.declaredHashWith [] Sample.right.qualifiedName _).1 ≠
    some (Sample.rings.declaredHashWith [] Sample.right.qualifiedName {}).1
  rw [declaredHashWith_of_found earlier, fresh]
  decide +kernel

end Scope

end NativeWeave
