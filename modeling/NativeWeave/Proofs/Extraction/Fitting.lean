import NativeWeave.Proofs.Editing.Failures
import NativeWeave.Proofs.Extraction.Checked

namespace NativeWeave

/-!
# Extracted bindings fit their types

What planning needs of a binding is what extraction has looked up itself: the place of every member,
the getter of every exposed property, and that no fixed array is handed over.  Two things it does not
look up, and they have to hold of the module: that setters are methods of their type, and that a
function has no more parameters than arguments can be numbered.
-/

/-- The accessors that the properties of a type name are methods of it. -/
def TypeDef.AccessorsInRange (type : TypeDef) : Prop :=
  ∀ property ∈ type.properties, (∀ getter ∈ property.getter, getter.toNat < type.methods.length) ∧
    ∀ setter ∈ property.setter, setter.toNat < type.methods.length

/-- The arguments of the exposed functions of a type can be numbered, the receiver counted. -/
def TypeDef.ArgumentsInRange (config : Config) (type : TypeDef) : Prop :=
  ∀ method ∈ type.methods, config.isAnnotated method.attributes Annotation.nativeFunction = true →
    method.parameters.length ≤ 65534

open Remembering

namespace Scope

variable {scope : Scope} {type : TypeDef} {index : Nat}

theorem gives_extractValue (method : Method) (declaration : MemberDeclaration)
    (direction : List PropertyFlag) :
    Gives (scope.extractValue type method declaration direction) fun found =>
      ∀ value ∈ found.binding,
        value.category.isArray = false ∧ value.origin = declaration.origin := by
  refine .bind (gives_extractMember declaration) fun found known => ?_
  cases found with
  | error diagnostic => exact .pure fun _ impossible => nomatch impossible
  | ok member =>
    dsimp only
    split
    · exact .pure fun _ impossible => nomatch impossible
    · next whole =>
      refine .pure fun value same => ?_
      cases same
      exact ⟨Bool.not_eq_true _ ▸ whole, (known member rfl).2⟩

theorem gives_extractResult (method : Method) : Gives (scope.extractResult type method) fun found =>
    ∀ value ∈ found.binding, value.category.isArray = false ∧ value.origin = .result := by
  unfold extractResult
  split
  · exact .pure fun _ impossible => nomatch impossible
  · exact gives_extractValue method _ _

theorem fits_extractFunction {method : Method} (found : type.methods[index]? = some method)
    (arguments : type.ArgumentsInRange scope.config) :
    Gives (scope.extractFunction type method index) fun result =>
      ∀ function ∈ result.binding, function.Fits type := by
  unfold extractFunction
  split
  · next attr annotated =>
    have short : method.parameters.length ≤ 65534 := by
      refine arguments method (List.mem_of_getElem? found) ?_
      rw [Config.isAnnotated, annotated]
      rfl
    have parameters : ∀ item ∈ method.parameters.zipIdx,
        Gives (scope.extractParameter type method item.1 item.2) fun found =>
          ∀ value ∈ found.binding, value.Passes := by
      intro ⟨parameter, place⟩ listed memory value same
      have here := List.mk_mem_zipIdx_iff_getElem?.mp listed
      rcases gives_extractValue method _ _ memory value same with ⟨whole, origin⟩
      refine ⟨whole, fun other same => ?_⟩
      rw [origin] at same
      cases same
      have inside := (List.getElem?_eq_some_iff.mp here).1
      omega
    unfold extractAnnotated
    dsimp only
    refine .bind (.mapM parameters) fun parameters passes => ?_
    refine .bind (gives_extractResult method) fun result returned => ?_
    split
    · exact .pure fun _ impossible => nomatch impossible
    · refine .pure fun function same => ?_
      cases same
      refine ⟨⟨method, found⟩, List.forall_mem_append.mpr ⟨fun value listed => ?_,
        fun value listed => ?_⟩⟩
      · rcases List.mem_filterMap.mp listed with ⟨one, inside, present⟩
        exact passes one inside value present
      · rcases returned value (Option.mem_toList.mp listed) with ⟨whole, origin⟩
        refine ⟨whole, fun place impossible => ?_⟩
        cases origin.symm.trans impossible
  · exact .pure fun _ impossible => nomatch impossible

theorem fits_extractProperty {property : Property}
    (found : type.properties[index]? = some property) (accessors : type.AccessorsInRange) :
    Gives (scope.extractProperty type property index) fun result =>
      ∀ member ∈ result.binding, member.ExposesProperty type := by
  intro memory member same
  rcases gives_extractProperty property memory member same with ⟨_, origin, readable⟩
  cases reads : property.getter with
  | none =>
    rw [getter?, reads] at readable
    cases readable
  | some getter =>
    rcases accessors property (List.mem_of_getElem? found) with ⟨inside, writes⟩
    exact ⟨index, property, getter, origin, found, reads, inside getter reads, writes⟩

theorem fits_extractClass (accessors : type.AccessorsInRange)
    (arguments : type.ArgumentsInRange scope.config) :
    Gives (scope.extractClass index type) fun found =>
      ∀ binding ∈ found.binding, binding.Fits type := by
  have members : ∀ item ∈ type.properties.zipIdx,
      Gives (scope.extractProperty type item.1 item.2) fun found =>
        ∀ member ∈ found.binding, member.ExposesProperty type :=
    fun item listed => fits_extractProperty (List.mk_mem_zipIdx_iff_getElem?.mp listed) accessors
  have functions : ∀ item ∈ type.methods.zipIdx,
      Gives (scope.extractFunction type item.1 item.2) fun found =>
        ∀ function ∈ found.binding, function.Fits type :=
    fun item listed => fits_extractFunction (List.mk_mem_zipIdx_iff_getElem?.mp listed) arguments
  unfold extractClass
  split
  · refine .bind (.mapM members) fun members exposes => ?_
    refine .bind (.mapM functions) fun functions fit => .pure fun binding found => ?_
    rw [← eq_of_mem_unless found]
    constructor
    · intro member listed
      rcases List.mem_filterMap.mp listed with ⟨result, inside, present⟩
      exact exposes result inside member present
    · intro function listed
      rcases List.mem_filterMap.mp listed with ⟨result, inside, present⟩
      exact fit result inside function present
  · exact .pure fun _ impossible => nomatch impossible

theorem fits_extractStruct : Gives (scope.extractStruct index type) fun found =>
    ∀ binding ∈ found.binding, ∀ member ∈ binding.members, member.ExposesField type := by
  have fields : ∀ item ∈ type.fields.zipIdx,
      Gives (scope.extractField type item.1 item.2) fun found =>
        ∀ member ∈ found.binding, member.ExposesField type :=
    fun item listed memory member found => ⟨item.2, item.1,
      (gives_extractField item.1 memory member found).2, List.mk_mem_zipIdx_iff_getElem?.mp listed⟩
  refine .bind (.mapM fields) fun members exposes => .after fun repr => ?_
  refine .pure fun binding found => ?_
  rw [← eq_of_mem_unless found]
  intro member listed
  rcases List.mem_filterMap.mp listed with ⟨result, inside, present⟩
  exact exposes result inside member present

end Scope

/-- What planning needs of the binding of a type. -/
def TypeBinding.Fits (type : TypeDef) : TypeBinding → Prop
  | .ofClass binding => binding.Fits type
  | .ofStruct binding => ∀ member ∈ binding.members, member.ExposesField type
  | .ofEnum _ => True

/-- The binding of a type of the module fits that type. -/
theorem Scope.fits_of_mem_extract {scope : Scope} {type : TypeDef} {binding : TypeBinding}
    (accessors : ∀ type ∈ scope.module.types, type.AccessorsInRange)
    (arguments : ∀ type ∈ scope.module.types, type.ArgumentsInRange scope.config)
    (member : binding ∈ scope.extract.bindings)
    (present : scope.module.types[binding.place]? = some type) : binding.Fits type :=
  forall_mem_extract (fun _ _ _ _ => trivial) (fun _ _ _ _ _ => fits_extractStruct)
    (fun _ type listed _ => fits_extractClass (accessors type listed) (arguments type listed))
    member present

end NativeWeave
