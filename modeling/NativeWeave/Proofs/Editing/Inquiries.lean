import NativeWeave.Proofs.Editing.Bodies
import NativeWeave.Proofs.Verification.Levels

namespace NativeWeave

/-!
# What initializers ask

The content of a slot answers a question to the layout service.  Most questions are about a handle,
which answers another question and is taken from the slot of that one: the members of a native type
are asked for with the handle of the type, and the parameters of a native function with that of the
function.  The code that fills slots is read here as a list of such inquiries, made one after the
other, and the plans for all types are shown to have just the slots of the inquiries that their code
makes.
-/

/-! ## Questions -/

/-- A question to the layout service and what it is about. -/
inductive Question
  | type (name : String)
  | about (query : LayoutQuery) (takes : query.parameters = [.intPtr]) (handle : Question)
  | named (query : LayoutQuery) (takes : query.parameters = [.intPtr, .string]) (owner : Question)
      (name : String)
  | width
deriving DecidableEq

/-- Which question it is, whatever it is about. -/
def Question.query : Question → LayoutQuery
  | type _ => .nativeType
  | about query _ _ | named query _ _ _ => query
  | width => .booleanStorageWidth

/-- A slot and the question that its content answers. -/
structure Inquiry where
  slot : String
  question : Question
deriving DecidableEq

namespace Inquiry

/-- The slot among the fields of a type. -/
def declaration (inquiry : Inquiry) : Field where
  name := inquiry.slot
  type := inquiry.question.query.result
  flags := Field.staticFlag ||| Field.generatedFlag

theorem isStatic_declaration (inquiry : Inquiry) : inquiry.declaration.isStatic = true := by
  change hasFlag (Field.staticFlag ||| Field.generatedFlag) Field.staticFlag = true
  decide

/-- The slot as code refers to it. -/
def field (inquiry : Inquiry) (owner : Signature) : MemberRef :=
  .staticField owner inquiry.slot inquiry.question.query.result

end Inquiry

/-- What is asked about values of a category, which have slots called after `base` and a name in
their native owner. -/
def Category.inquiries (category : Category) (base : String) (owner : Question) (name : String) :
    List Inquiry :=
  [⟨Naming.offsetSlot base, .named .propertyOffset rfl owner name⟩]
    ++ (if category.needsHandle then
      [⟨Naming.handleSlot base, .named .propertyHandle rfl owner name⟩] else [])
    ++ (if category.needsElementSize then
      [⟨Naming.elementSizeSlot base, .named .arrayElementSize rfl owner name⟩] else [])
    ++ (if category.needsWidth then [⟨Naming.widthSlot base, .width⟩] else [])

namespace StructBinding

/-- The inquiry about the native type. -/
def typeInquiry (binding : StructBinding) : Inquiry :=
  ⟨Naming.nativeClassPtr, .type binding.nativeName⟩

/-- The inquiry about the size of the native type. -/
def sizeInquiry (binding : StructBinding) : Inquiry :=
  ⟨Naming.nativeDataSize, .about .structSize rfl binding.typeInquiry.question⟩

/-- What is asked about a struct that is marshalled. -/
def marshalInquiries (binding : StructBinding) : List Inquiry :=
  [binding.typeInquiry, binding.sizeInquiry]
    ++ binding.members.flatMap fun member =>
      member.category.inquiries member.name binding.typeInquiry.question member.nativeName

/-- What is asked about a struct.  There is nothing to ask if both sides have the same bytes. -/
def inquiries (binding : StructBinding) : List Inquiry :=
  if binding.blittable then [] else binding.marshalInquiries

end StructBinding

namespace FunctionBinding

/-- The inquiry about the native function, in the native owner. -/
def handleInquiry (function : FunctionBinding) (owner : Question) : Inquiry :=
  ⟨Naming.functionSlot function.name, .named .functionHandle rfl owner function.nativeName⟩

/-- The inquiry about the size of the buffer that the function takes. -/
def sizeInquiry (function : FunctionBinding) (owner : Question) : Inquiry :=
  ⟨Naming.parametersSizeSlot function.name,
    .about .functionArgumentsSize rfl (function.handleInquiry owner).question⟩

/-- What is asked about a function, with the layout of its parameters and its return value in the
buffer. -/
def inquiries (function : FunctionBinding) (owner : Question) : List Inquiry :=
  [function.handleInquiry owner, function.sizeInquiry owner]
    ++ function.values.flatMap fun value =>
      value.category.inquiries (Naming.parameterSlots function.name value.name)
        (function.handleInquiry owner).question value.nativeName

end FunctionBinding

/-- What is asked about a member of a class.  Only properties have slots. -/
def MemberBinding.inquiries (member : MemberBinding) (owner : Question) : List Inquiry :=
  match member.origin with
  | .property _ => member.category.inquiries member.name owner member.nativeName
  | _ => []

namespace ClassBinding

/-- The inquiry about the native class. -/
def typeInquiry (binding : ClassBinding) : Inquiry :=
  ⟨Naming.nativeClassPtr, .type binding.nativeName⟩

/-- What is asked about a class. -/
def inquiries (binding : ClassBinding) : List Inquiry :=
  binding.typeInquiry :: (binding.members.flatMap (·.inquiries binding.typeInquiry.question)
    ++ binding.functions.flatMap (·.inquiries binding.typeInquiry.question))

end ClassBinding

/-- What is asked about an annotated type. -/
def TypeBinding.inquiries : TypeBinding → List Inquiry
  | .ofClass binding => binding.inquiries
  | .ofStruct binding => binding.inquiries
  | .ofEnum _ => []

/-! ## Code that asks -/

/-- Code that pushes what a question is about.  A handle comes from the slot of a known inquiry. -/
inductive Question.PushedBy (tables : Tables) (owner : Signature) (known : List Inquiry) :
    Question → Fragment → Prop
  | type {name : String} {text : UInt32} (spells : tables.string? text = some name) :
      PushedBy tables owner known (.type name) [.constString text]
  | about {query : LayoutQuery} {takes : query.parameters = [.intPtr]} {source : Inquiry}
      {token : UInt32} (listed : source ∈ known)
      (loads : tables.member? token = some (source.field owner)) :
      PushedBy tables owner known (.about query takes source.question) [.loadStatic token]
  | named {query : LayoutQuery} {takes : query.parameters = [.intPtr, .string]} {source : Inquiry}
      {name : String} {token text : UInt32} (listed : source ∈ known)
      (loads : tables.member? token = some (source.field owner))
      (spells : tables.string? text = some name) :
      PushedBy tables owner known (.named query takes source.question name)
        [.loadStatic token, .constString text]
  | width : PushedBy tables owner known .width []

/-- Code that makes an inquiry and keeps the answer. -/
inductive Inquiry.MadeBy (config : Config) (tables : Tables) (owner : Signature)
    (known : List Inquiry) (inquiry : Inquiry) : Fragment → Prop
  | intro (pushes : Fragment) {call token : UInt32}
      (pushed : inquiry.question.PushedBy tables owner known pushes)
      (asks : tables.member? call = some (config.layout inquiry.question.query))
      (keeps : tables.member? token = some (inquiry.field owner)) :
      MadeBy config tables owner known inquiry (pushes ++ [.call call, .storeStatic token])

/-- Code that makes inquiries one after the other and does nothing else.  The ones made before are
known to those that follow. -/
inductive Fragment.Inquires (config : Config) (tables : Tables) (owner : Signature) :
    List Inquiry → Fragment → List Inquiry → Prop
  | nil {known : List Inquiry} : Inquires config tables owner known [] []
  | cons {known asked : List Inquiry} {inquiry : Inquiry} {front back : Fragment}
      (first : inquiry.MadeBy config tables owner known front)
      (rest : Inquires config tables owner (known ++ [inquiry]) back asked) :
      Inquires config tables owner known (front ++ back) (inquiry :: asked)

variable {config : Config} {tables : Tables} {owner : Signature} {known more asked : List Inquiry}

namespace Question.PushedBy

variable {question : Question} {pushes : Fragment}

theorem mono (pushed : question.PushedBy tables owner known pushes) (within : known ⊆ more) :
    question.PushedBy tables owner more pushes := by
  cases pushed with
  | type spells => exact .type spells
  | about listed loads => exact .about (within listed) loads
  | named listed loads spells => exact .named (within listed) loads spells
  | width => exact .width

theorem straight (pushed : question.PushedBy tables owner known pushes) :
    ∀ instr ∈ pushes, instr.target? = none := by
  cases pushed with
  | type | about => exact List.forall_mem_singleton.mpr rfl
  | named => exact List.forall_mem_cons.mpr ⟨rfl, List.forall_mem_singleton.mpr rfl⟩
  | width => exact List.forall_mem_nil _

/-- What is pushed comes from slots of known inquiries. -/
theorem exists_source (pushed : question.PushedBy tables owner known pushes) {token : UInt32}
    (reads : .loadStatic token ∈ pushes) :
    ∃ source ∈ known, tables.member? token = some (source.field owner) := by
  cases pushed with
  | type => cases List.mem_singleton.mp reads
  | about listed loads =>
    cases List.mem_singleton.mp reads
    exact ⟨_, listed, loads⟩
  | named listed loads =>
    rcases List.mem_cons.mp reads with same | text
    · cases same
      exact ⟨_, listed, loads⟩
    · cases List.mem_singleton.mp text
  | width => cases reads

end Question.PushedBy

namespace Inquiry.MadeBy

variable {inquiry : Inquiry} {fragment : Fragment}

theorem mono (made : inquiry.MadeBy config tables owner known fragment) (within : known ⊆ more) :
    inquiry.MadeBy config tables owner more fragment := by
  cases made with
  | intro _ pushed asks keeps => exact .intro _ (pushed.mono within) asks keeps

theorem straight (made : inquiry.MadeBy config tables owner known fragment) :
    ∀ instr ∈ fragment, instr.target? = none := by
  cases made with
  | intro _ pushed asks keeps =>
    exact List.forall_mem_append.mpr ⟨pushed.straight,
      List.forall_mem_cons.mpr ⟨rfl, List.forall_mem_singleton.mpr rfl⟩⟩

theorem exists_source (made : inquiry.MadeBy config tables owner known fragment) {token : UInt32}
    (reads : .loadStatic token ∈ fragment) :
    ∃ source ∈ known, tables.member? token = some (source.field owner) := by
  cases made with
  | intro _ pushed asks keeps =>
    rcases List.mem_append.mp reads with inside | behind
    · exact pushed.exists_source inside
    · rcases List.mem_cons.mp behind with call | store
      · cases call
      · cases List.mem_singleton.mp store

/-- The answer is kept in the slot. -/
theorem exists_store (made : inquiry.MadeBy config tables owner known fragment) :
    ∃ token, .storeStatic token ∈ fragment ∧ tables.member? token = some (inquiry.field owner) := by
  cases made with
  | intro _ pushed asks keeps =>
    exact ⟨_, List.mem_append_right _ (List.mem_cons_of_mem _ (List.mem_singleton_self _)), keeps⟩

end Inquiry.MadeBy

/-- The code reads a static field only after it has stored to it. -/
def Fragment.StoresFirst (fragment : Fragment) (tables : Tables) : Prop :=
  ∀ front token back, fragment = front ++ .loadStatic token :: back →
    ∃ slot, tables.member? token = some slot ∧
      ∃ earlier, .storeStatic earlier ∈ front ∧ tables.member? earlier = some slot

namespace Fragment

variable {fragment front back : Fragment}

theorem inquires_singleton {inquiry : Inquiry}
    (made : inquiry.MadeBy config tables owner known fragment) :
    fragment.Inquires config tables owner known [inquiry] := by
  have one := Inquires.cons made (.nil)
  rwa [List.append_nil] at one

namespace Inquires

theorem mono (inquires : fragment.Inquires config tables owner known asked) (within : known ⊆ more) :
    fragment.Inquires config tables owner more asked := by
  induction inquires generalizing more with
  | nil => exact .nil
  | cons first rest ih =>
    refine .cons (first.mono within) (ih ?_)
    exact List.append_subset.mpr ⟨List.subset_append_of_subset_left _ within,
      List.subset_append_right _ _⟩

theorem append (first : front.Inquires config tables owner known asked)
    (second : back.Inquires config tables owner (known ++ asked) more) :
    (front ++ back).Inquires config tables owner known (asked ++ more) := by
  induction first with
  | nil => rwa [List.append_nil] at second
  | cons made rest ih =>
    rw [List.append_assoc]
    refine .cons made (ih ?_)
    rwa [List.append_assoc]

theorem straight (inquires : fragment.Inquires config tables owner known asked) :
    ∀ instr ∈ fragment, instr.target? = none := by
  induction inquires with
  | nil => exact List.forall_mem_nil _
  | cons first _ ih => exact List.forall_mem_append.mpr ⟨first.straight, ih⟩

/-- What the code reads has been stored before, by itself or by the code of a known inquiry. -/
theorem exists_source (inquires : fragment.Inquires config tables owner known asked)
    {token : UInt32} (split : fragment = front ++ .loadStatic token :: back) :
    ∃ source : Inquiry, tables.member? token = some (source.field owner) ∧ (source ∈ known ∨
      ∃ earlier, .storeStatic earlier ∈ front ∧
        tables.member? earlier = some (source.field owner)) := by
  induction inquires generalizing front with
  | nil => cases (List.append_eq_nil_iff.mp split.symm).2
  | @cons _ _ inquiry code _ made _ ih =>
    -- The field is read for a later inquiry or for the first one.
    by_cases later : code <+: front
    · rcases later with ⟨middle, rfl⟩
      rw [List.append_assoc] at split
      rcases ih (List.append_cancel_left split) with
        ⟨source, means, inside | ⟨earlier, stored, same⟩⟩
      · rcases List.mem_append.mp inside with old | new
        · exact ⟨source, means, .inl old⟩
        · rcases made.exists_store with ⟨earlier, stored, same⟩
          cases List.mem_singleton.mp new
          exact ⟨inquiry, means, .inr ⟨earlier, List.mem_append_left _ stored, same⟩⟩
      · exact ⟨source, means, .inr ⟨earlier, List.mem_append_right _ stored, same⟩⟩
    · rcases List.append_eq_append_iff.mp split with ⟨middle, whole, _⟩ | ⟨middle, rfl, here⟩
      · exact absurd ⟨middle, whole.symm⟩ later
      · cases middle with
        | nil =>
          rw [List.append_nil] at later
          exact absurd List.prefix_rfl later
        | cons instr middle =>
          cases here
          rcases made.exists_source (List.mem_append_right _ List.mem_cons_self) with
            ⟨source, listed, means⟩
          exact ⟨source, means, .inl listed⟩

theorem storesFirst (inquires : fragment.Inquires config tables owner [] asked) :
    fragment.StoresFirst tables := by
  intro front token back split
  rcases inquires.exists_source split with ⟨source, means, impossible | stored⟩
  · cases impossible
  · exact ⟨_, means, stored⟩

end Inquires

end Fragment

/-! ## Plans -/

/-- The static fields that a plan adds. -/
def TypePlan.slots (plan : TypePlan) : List Field :=
  plan.fields.filter (·.isStatic)

/-- The slots that the plan adds are those of the inquiries `kept`, and its code makes the inquiries
`asked`.  These are the same for the plan of a type, but its parts may do one before the other. -/
structure TypePlan.Inquires (plan : TypePlan) (config : Config) (tables : Tables)
    (owner : Signature) (known kept asked : List Inquiry) : Prop where
  slots : plan.slots = kept.map (·.declaration)
  prelude : plan.prelude.Inquires config tables owner known asked

/-- The plan neither adds slots nor fills them. -/
structure TypePlan.Idle (plan : TypePlan) : Prop where
  slots : plan.slots = []
  prelude : plan.prelude = []

namespace TypePlan

variable {plan first second : TypePlan} {kept others : List Inquiry}

theorem slots_append (first second : TypePlan) :
    (first ++ second).slots = first.slots ++ second.slots :=
  List.filter_append ..

theorem idle_of_nil (fields : plan.fields = []) (prelude : plan.prelude = []) : plan.Idle :=
  ⟨by rw [slots, fields, List.filter_nil], prelude⟩

theorem idle_empty : ({} : TypePlan).Idle :=
  idle_of_nil rfl rfl

theorem Idle.append (one : first.Idle) (other : second.Idle) : (first ++ second).Idle where
  slots := by rw [slots_append, one.slots, other.slots, List.append_nil]
  prelude := by
    change first.prelude.append second.prelude = []
    rw [one.prelude, other.prelude]
    rfl

theorem idle_concat {plans : List TypePlan} (each : ∀ plan ∈ plans, plan.Idle) :
    (concat plans).Idle := by
  induction plans with
  | nil => exact idle_empty
  | cons plan more ih =>
    rw [List.forall_mem_cons] at each
    exact each.1.append (ih each.2)

theorem Idle.inquires (idle : plan.Idle) : plan.Inquires config tables owner known [] [] :=
  ⟨idle.slots, idle.prelude ▸ .nil⟩

theorem inquires_prelude {prelude : Fragment}
    (inquires : prelude.Inquires config tables owner known asked) :
    ({ prelude } : TypePlan).Inquires config tables owner known [] asked :=
  ⟨rfl, inquires⟩

namespace Inquires

theorem mono (inquires : plan.Inquires config tables owner known kept asked)
    (within : known ⊆ more) : plan.Inquires config tables owner more kept asked :=
  ⟨inquires.slots, inquires.prelude.mono within⟩

theorem append (one : first.Inquires config tables owner known kept asked)
    (other : second.Inquires config tables owner (known ++ asked) others more) :
    (first ++ second).Inquires config tables owner known (kept ++ others) (asked ++ more) where
  slots := by rw [slots_append, one.slots, other.slots, List.map_append]
  prelude := by
    change (first.prelude ++ second.prelude.shift _).Inquires config tables owner known _
    rw [Fragment.shift_eq other.prelude.straight]
    exact one.prelude.append other.prelude

/-- Code for slots comes behind the slots. -/
theorem filled {prelude : Fragment} (one : plan.Inquires config tables owner known kept [])
    (other : prelude.Inquires config tables owner known asked) :
    (plan ++ ({ prelude } : TypePlan)).Inquires config tables owner known kept asked := by
  have both := one.append (inquires_prelude (other.mono (List.subset_append_left _ _)))
  rwa [List.append_nil] at both

/-- An idle plan behind another one makes no difference. -/
theorem idle (one : first.Inquires config tables owner known kept asked) (other : second.Idle) :
    (first ++ second).Inquires config tables owner known kept asked := by
  have both := one.append other.inquires
  rwa [List.append_nil, List.append_nil] at both

end Inquires

theorem inquires_concat {Item : Type} {items : List Item} {plans : List TypePlan}
    {inquiries : Item → List Inquiry} (each : List.Forall₂ (fun item plan => TypePlan.Inquires plan
      config tables owner known (inquiries item) (inquiries item)) items plans) :
    (concat plans).Inquires config tables owner known (items.flatMap inquiries)
      (items.flatMap inquiries) := by
  induction each with
  | nil => exact idle_empty.inquires
  | cons first _ ih => exact first.append (ih.mono (List.subset_append_left _ _))

end TypePlan

/-! ## Steps -/

/-- There is a token of the member if it is wanted, and none otherwise. -/
inductive Tables.Grants (tables : Tables) (reference : MemberRef) : Bool → Option UInt32 → Prop
  | wanted {token : UInt32} (means : tables.member? token = some reference) :
      Grants tables reference true (some token)
  | unwanted : Grants tables reference false none

/-- There are tokens of the slots that values of a category need, and of no others. -/
structure MemberSlots.Complete (slots : MemberSlots) (tables : Tables) (owner : Signature)
    (base : String) (category : Category) : Prop where
  offset : tables.member? slots.offset = some (.staticField owner (Naming.offsetSlot base) .i32)
  handle : tables.Grants (.staticField owner (Naming.handleSlot base) .intPtr) category.needsHandle
    slots.handle
  elementSize : tables.Grants (.staticField owner (Naming.elementSizeSlot base) .i32)
    category.needsElementSize slots.elementSize
  width : tables.Grants (.staticField owner (Naming.widthSlot base) .i32) category.needsWidth
    slots.width

open Emit TypePlan

theorem leaves_inquirySlot (config : Config) (inquiry : Inquiry) :
    (staticSlot owner inquiry.slot inquiry.question.query.result).Leaves fun tables slot =>
      tables.member? slot.value = some (inquiry.field owner) ∧
        ∀ known, slot.plan.Inquires config tables owner known [inquiry] [] := by
  unfold staticSlot
  refine .bind (leaves_member _) fun token => .pure fun tables means => ⟨means, fun known => ?_⟩
  exact ⟨List.filter_cons_of_pos inquiry.isStatic_declaration, .nil⟩

theorem leaves_wantedSlot (config : Config) (wanted : Bool) (inquiry : Inquiry) :
    (optionalSlot wanted owner inquiry.slot inquiry.question.query.result).Leaves fun tables slot =>
      tables.Grants (inquiry.field owner) wanted slot.value ∧ ∀ known,
        slot.plan.Inquires config tables owner known (if wanted then [inquiry] else []) [] := by
  unfold optionalSlot
  cases wanted with
  | true =>
    refine .bind (leaves_inquirySlot config inquiry) fun slot => .pure fun tables made => ?_
    exact ⟨.wanted made.1, made.2⟩
  | false => exact .pure fun tables => ⟨.unwanted, fun known => idle_empty.inquires⟩

theorem leaves_slotsOfInquiries (config : Config) (handle : Question) (base name : String)
    (category : Category) : (memberSlots owner base category).Leaves fun tables slots =>
      slots.value.Complete tables owner base category ∧ ∀ known,
        slots.plan.Inquires config tables owner known (category.inquiries base handle name) [] := by
  unfold memberSlots
  refine .bind (leaves_inquirySlot config ⟨_, .named .propertyOffset rfl handle name⟩) fun offset =>
    .bind (leaves_wantedSlot config _ ⟨_, .named .propertyHandle rfl handle name⟩) fun native =>
      .bind (leaves_wantedSlot config _ ⟨_, .named .arrayElementSize rfl handle name⟩)
        fun elementSize => .bind (leaves_wantedSlot config _ ⟨_, .width⟩) fun width => .pure ?_
  intro tables width elementSize native offset
  refine ⟨⟨offset.1, native.1, elementSize.1, width.1⟩, fun known => ?_⟩
  exact (((offset.2 known).append (native.2 _)).append (elementSize.2 _)).append (width.2 _)

namespace Prelude

/-- The code that the step gives makes inquiries, as long as every text has an index. -/
def Makes (step : Emit Fragment) (config : Config) (owner : Signature) (ready : Tables → Prop)
    (known asked : List Inquiry) : Prop :=
  step.Leaves fun tables fragment => tables.strings.length ≤ 2 ^ 32 → ready tables →
    fragment.Inquires config tables owner known asked

variable {source : Inquiry} {name : String} {handle token : UInt32} {query : LayoutQuery}

theorem makes_query (owner : Signature) (slot : String) (listed : source ∈ known)
    (takes : query.parameters = [.intPtr, .string]) :
    Makes (Prelude.query config query handle name token) config owner (fun tables =>
        tables.member? handle = some (source.field owner) ∧
        tables.member? token = some (.staticField owner slot query.result))
      known [⟨slot, .named query takes source.question name⟩] := by
  unfold Prelude.query
  refine .bind (leaves_member _) fun call => .bind (leaves_text name) fun text => .pure ?_
  rintro tables ⟨index, rfl, spells⟩ asks short ⟨loads, keeps⟩
  exact Fragment.inquires_singleton (.intro _ (.named listed loads (spells short)) asks keeps)

theorem makes_queryHandle (owner : Signature) (slot : String) (listed : source ∈ known)
    (takes : query.parameters = [.intPtr]) :
    Makes (Prelude.queryHandle config query handle token) config owner (fun tables =>
        tables.member? handle = some (source.field owner) ∧
        tables.member? token = some (.staticField owner slot query.result))
      known [⟨slot, .about query takes source.question⟩] := by
  unfold Prelude.queryHandle
  refine .bind (leaves_member _) fun call => .pure fun tables asks short ⟨loads, keeps⟩ => ?_
  exact Fragment.inquires_singleton (.intro [_] (.about listed loads) asks keeps)

theorem makes_nativeType (owner : Signature) (slot : String) :
    Makes (Prelude.nativeType config name token) config owner (fun tables =>
        tables.member? token = some (.staticField owner slot .intPtr))
      known [⟨slot, .type name⟩] := by
  unfold Prelude.nativeType
  refine .bind (leaves_member _) fun call => .bind (leaves_text name) fun text => .pure ?_
  rintro tables ⟨index, rfl, spells⟩ asks short keeps
  exact Fragment.inquires_singleton (.intro _ (.type (spells short)) asks keeps)

theorem makes_booleanWidth (owner : Signature) (slot : String) :
    Makes (Prelude.booleanWidth config token) config owner (fun tables =>
        tables.member? token = some (.staticField owner slot .i32))
      known [⟨slot, .width⟩] := by
  unfold Prelude.booleanWidth
  refine .bind (leaves_member _) fun call => .pure fun tables asks short keeps => ?_
  exact Fragment.inquires_singleton (.intro [] .width asks keeps)

theorem makes_filled (wanted : Bool) (inquiry : Inquiry) {tokens : Option UInt32}
    {fill : UInt32 → Emit Fragment} {ready : Tables → Prop}
    (each : ∀ token, Makes (fill token) config owner (fun tables =>
      ready tables ∧ tables.member? token = some (inquiry.field owner)) known [inquiry]) :
    Makes (filled tokens fill) config owner (fun tables =>
        ready tables ∧ tables.Grants (inquiry.field owner) wanted tokens)
      known (if wanted then [inquiry] else []) := by
  unfold filled
  split
  · next token =>
    refine (each token).mono fun tables fragment makes short given => ?_
    rcases given with ⟨settled, grants⟩
    cases grants with
    | wanted means => exact makes short ⟨settled, means⟩
  · refine .pure fun tables short given => ?_
    rcases given with ⟨_, grants⟩
    cases grants with
    | unwanted => exact .nil

theorem makes_member (listed : source ∈ known) {base : String} {category : Category}
    {slots : MemberSlots} :
    Makes (Prelude.member config handle name slots) config owner (fun tables =>
        tables.member? handle = some (source.field owner) ∧
        slots.Complete tables owner base category)
      known (category.inquiries base source.question name) := by
  have width : ∀ token, Makes (booleanWidth config token) config owner (fun tables =>
      True ∧ tables.member? token = some (.staticField owner (Naming.widthSlot base) .i32)) known
        [⟨Naming.widthSlot base, .width⟩] := fun token =>
    (makes_booleanWidth owner _).mono fun tables fragment makes short ready => makes short ready.2
  unfold Prelude.member
  refine .bind (makes_query owner (Naming.offsetSlot base) listed rfl) fun offset =>
    .bind (makes_filled category.needsHandle
      ⟨Naming.handleSlot base, .named .propertyHandle rfl source.question name⟩
      fun token => makes_query owner _ listed rfl) fun native =>
    .bind (makes_filled category.needsElementSize
      ⟨Naming.elementSizeSlot base, .named .arrayElementSize rfl source.question name⟩
      fun token => makes_query owner _ listed rfl) fun elementSize =>
    .bind (makes_filled category.needsWidth ⟨Naming.widthSlot base, .width⟩ width)
      fun width => .pure ?_
  intro tables width elementSize native offset short ⟨loads, complete⟩
  have known := (offset short ⟨loads, complete.offset⟩).append
    ((native short ⟨loads, complete.handle⟩).mono (List.subset_append_left _ _))
  have known := known.append
    ((elementSize short ⟨loads, complete.elementSize⟩).mono (List.subset_append_left _ _))
  exact known.append ((width short ⟨trivial, complete.width⟩).mono (List.subset_append_left _ _))

/-- The code for the slots of a member makes the inquiries about it, with the handle of whatever the
member is looked up in. -/
theorem leaves_inquiries (source : Inquiry) (owner : Signature) (base : String)
    (category : Category) {slots : MemberSlots} :
    (Prelude.member config handle name slots).Leaves fun tables fragment =>
      tables.strings.length ≤ 2 ^ 32 → tables.member? handle = some (source.field owner) →
        slots.Complete tables owner base category → ∀ known, source ∈ known →
          fragment.Inquires config tables owner known
            (category.inquiries base source.question name) :=
  fun _ _ _ run tables grows indexed short loads complete _ listed =>
    makes_member listed _ _ _ run tables grows indexed short ⟨loads, complete⟩

end Prelude

end NativeWeave
