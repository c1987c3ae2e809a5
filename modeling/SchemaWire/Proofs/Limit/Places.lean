import Mathlib.Data.List.Infix
import Mathlib.Data.List.ProdSigma
import SchemaWire.Proofs.Limit.Data

/-!
# The places in a message

The shapes, wire types and resolutions that a reader of a message comes by make up a world, and
the places in this world can be listed. So a reader that goes deeper than the list is long never
ends.
-/

namespace SchemaWire

/-- Every kind is listed. -/
theorem Kind.mem_all (kind : Kind) : kind ∈ Kind.all := by
  cases kind <;> decide

namespace WireType

/-- A type is among those in it. -/
theorem mem_within (type : WireType) : type ∈ type.within := by
  cases type
  exact List.mem_cons_self

/-- The types in an argument are among those in the arguments. -/
theorem within_subset_withinArgs {args : List WireType} {arg : WireType} (h : arg ∈ args) :
    arg.within ⊆ withinArgs args := by
  induction args with
  | nil => cases h
  | cons first rest ih =>
    rw [withinArgs]
    rcases List.mem_cons.mp h with rfl | hrest
    · exact List.subset_append_left _ _
    · exact fun type htype => List.mem_append_right _ (ih hrest htype)

mutual

/-- The arguments of a type in a type are in it. -/
theorem args_mem_within : (top : WireType) → ∀ type ∈ top.within, ∀ arg ∈ type.args,
    arg ∈ top.within
  | ⟨id, nullable, tracked, args⟩ => by
    intro type htype arg harg
    rcases List.mem_cons.mp htype with rfl | hmem
    · exact List.mem_cons_of_mem _ (within_subset_withinArgs harg arg.mem_within)
    · exact List.mem_cons_of_mem _ (args_mem_withinArgs args type hmem arg harg)

/-- The arguments of a type in a list of types are in it. -/
theorem args_mem_withinArgs : (args : List WireType) → ∀ type ∈ withinArgs args,
    ∀ arg ∈ type.args, arg ∈ withinArgs args
  | [] => nofun
  | first :: rest => by
    intro type htype arg harg
    rcases List.mem_append.mp htype with hmem | hmem
    · exact List.mem_append_left _ (first.args_mem_within type hmem arg harg)
    · exact List.mem_append_right _ (args_mem_withinArgs rest type hmem arg harg)

end

/-- The id of a type does not matter to how many types are in it. -/
theorem length_within_of_id (type : WireType) (id : UInt32) :
    (within { type with id := id }).length = type.within.length := by
  cases type
  rfl

end WireType

namespace ReadEnv

variable {env : ReadEnv}

/-- Every builtin may be known of a value. -/
theorem known_mem_resolutions (kind : Kind) : .known kind ∈ env.resolutions := by
  simp [resolutions, kind.mem_all]

/-- A struct may be known of a value by its schema. -/
theorem struct_mem_resolutions {schema : Schema} :
    .struct schema ∈ env.resolutions ↔ schema ∈ env.knownSchemas := by
  simp [resolutions]

/-- An enum may be known of a value. -/
theorem enum_mem_resolutions : .enum ∈ env.resolutions := by
  simp [resolutions]

/-- A layout of its own without a local type may be known of a value. -/
theorem ext_none_mem_resolutions : .ext none ∈ env.resolutions := by
  simp [resolutions]

/-- A layout of its own may be known of a value by a registered type. -/
theorem ext_mem_resolutions {spec : TypeSpec} (h : spec ∈ env.registry.specs) :
    .ext spec.host ∈ env.resolutions := by
  have hmem : .ext spec.host ∈ env.registry.specs.map fun spec => Resolved.ext spec.host :=
    List.mem_map_of_mem h
  simp only [resolutions, List.mem_append, List.mem_cons]
  exact .inr (.inr (.inr hmem))

/-- A layout of its own with a local type is that of a registered type. -/
theorem exists_of_ext_mem_resolutions {host : HostType}
    (h : .ext (some host) ∈ env.resolutions) : ∃ spec ∈ env.registry.specs, spec.host = some host := by
  simpa [resolutions] using h

end ReadEnv

namespace World

/-- The world of a message with the given schemas and body, whose top-level value has the given
type and is read by the given shape. -/
def ofMessage (env : ReadEnv) (top : WireType) (shape : Shape) (body : List UInt8) :
    World env where
  shapes := env.shapesWithin shape
  types := env.types top
  resolutions := env.resolutions
  body := body
  stable := by
    refine env.shapes.stable_within shape fun other hother part hpart => ?_
    obtain ⟨host, -, rfl⟩ := List.mem_map.mp hother
    cases host with
    | bytes =>
      rw [List.mem_singleton.mp hpart]
      simp [Shapes.common]
    | _ => cases hpart
  args := by
    intro type htype arg harg
    rcases List.mem_append.mp htype with hmem | hmem
    · exact List.mem_append_left _ (top.args_mem_within type hmem arg harg)
    · obtain ⟨schema, hschema, hmem⟩ := List.mem_flatMap.mp hmem
      obtain ⟨field, hfield, hmem⟩ := List.mem_flatMap.mp hmem
      refine List.mem_append_right _ (List.mem_flatMap.mpr ⟨schema, hschema, ?_⟩)
      exact List.mem_flatMap.mpr ⟨field, hfield, field.type.args_mem_within type hmem arg harg⟩
  fields := by
    intro schema hschema field hfield
    have hknown := ReadEnv.struct_mem_resolutions.mp hschema
    refine List.mem_append_right _ (List.mem_flatMap.mpr ⟨schema, hknown, ?_⟩)
    exact List.mem_flatMap.mpr ⟨field, hfield, field.type.mem_within⟩
  known kind := ReadEnv.known_mem_resolutions kind
  schemas := by
    intro schema hschema kind
    unfold Read.ofSchema
    by_cases hstruct : kind.isStruct
    · rw [if_pos hstruct]
      exact ReadEnv.struct_mem_resolutions.mpr (List.mem_append_left _ hschema)
    · rw [if_neg hstruct]
      by_cases henum : kind.isEnum
      · rw [if_pos henum]
        exact ReadEnv.enum_mem_resolutions
      · rw [if_neg henum]
        dsimp only
        split
        next spec hspec =>
          have hmem : spec ∈ env.registry.specs := by
            split at hspec
            · exact Registry.mem_of_ofName hspec
            · exact Registry.mem_of_ofTypeId hspec
          unfold Read.extHost?
          split
          · exact ReadEnv.ext_mem_resolutions hmem
          · exact ReadEnv.ext_none_mem_resolutions
        next => exact ReadEnv.ext_none_mem_resolutions
  specs := by
    intro spec hspec kind resolved hresolved
    unfold Read.ofSpec at hresolved
    split at hresolved
    · split at hresolved
      · obtain ⟨schema, hschema, hresolved⟩ := exists_of_except_bind_ok hresolved
        cases hresolved
        have hown : schema ∈ env.registry.specs.filterMap fun spec =>
            (Schema.ofSpec env.registry spec false).toOption :=
          List.mem_filterMap.mpr ⟨spec, hspec, by rw [hschema]; rfl⟩
        exact ReadEnv.struct_mem_resolutions.mpr (List.mem_append_right _ hown)
      · cases hresolved
    · split at hresolved
      · cases hresolved
        exact ReadEnv.enum_mem_resolutions
      · cases hresolved
    · split at hresolved
      · cases hresolved
        exact ReadEnv.ext_mem_resolutions hspec
      · cases hresolved
    · cases hresolved
  hosts := by
    intro host hhost
    obtain ⟨spec, hspec, hsame⟩ := ReadEnv.exists_of_ext_mem_resolutions hhost
    refine List.mem_append_right _ (List.mem_map_of_mem ?_)
    exact List.mem_filterMap.mpr ⟨spec, hspec, hsame⟩

section Lists

variable {env : ReadEnv} (world : World env)

/-- The scopes of values. -/
def scopes (env : ReadEnv) : List Scope :=
  (List.range (env.config.maxDepth + 1) ×ˢ [true, false]).map fun pair => ⟨pair.1, pair.2⟩

/-- The spots of values. -/
def spots : List Spot :=
  world.types.map .declared ++
    (world.types ×ˢ world.resolutions).map fun pair => .entered pair.1 pair.2

/-- The jobs of readers. -/
def jobs : List Job :=
  (scopes env ×ˢ (world.spots ×ˢ world.shapes)).map
      (fun triple => .read triple.1 triple.2.1 triple.2.2) ++
    (scopes env ×ˢ world.spots).map (fun pair => .pass pair.1 pair.2) ++ world.shapes.map .plain

/-- The places in a message: the jobs with the bytes that are left. -/
def places : List (Job × List UInt8) :=
  world.jobs ×ˢ world.body.tails

/-- Scopes within the limit on depth are listed. -/
theorem mem_scopes {scope : Scope} (h : scope.depth ≤ env.config.maxDepth) :
    scope ∈ scopes env := by
  refine List.mem_map.mpr ⟨(scope.depth, scope.recording), List.mem_product.mpr ⟨?_, ?_⟩, rfl⟩
  · exact List.mem_range.mpr (Nat.lt_succ_of_le h)
  · cases scope.recording <;> decide

/-- Spots that occur are listed. -/
theorem mem_spots {spot : Spot} (h : world.HasSpot spot) : spot ∈ world.spots := by
  cases spot with
  | declared type => exact List.mem_append_left _ (List.mem_map_of_mem h)
  | entered type resolved =>
    refine List.mem_append_right _ (List.mem_map.mpr ⟨(type, resolved), ?_, rfl⟩)
    exact List.mem_product.mpr h

/-- Jobs that occur are listed. -/
theorem mem_jobs {job : Job} (h : world.realm.Has job) : job ∈ world.jobs := by
  cases job with
  | read scope spot shape =>
    obtain ⟨hscope, hspot, hshape⟩ := h
    refine List.mem_append_left _ (List.mem_append_left _ ?_)
    refine List.mem_map.mpr ⟨(scope, spot, shape), List.mem_product.mpr ⟨mem_scopes hscope, ?_⟩, rfl⟩
    exact List.mem_product.mpr ⟨world.mem_spots hspot, hshape⟩
  | pass scope spot =>
    obtain ⟨hscope, hspot⟩ := h
    refine List.mem_append_left _ (List.mem_append_right _ ?_)
    refine List.mem_map.mpr ⟨(scope, spot), ?_, rfl⟩
    exact List.mem_product.mpr ⟨mem_scopes hscope, world.mem_spots hspot⟩
  | plain shape => exact List.mem_append_right _ (List.mem_map_of_mem h)

/-- Places that occur are listed. -/
theorem mem_places {job : Job} {s : ReadState} (hjob : world.realm.Has job)
    (hs : world.realm.Inside s) : (job, s.input) ∈ world.places :=
  List.mem_product.mpr ⟨world.mem_jobs hjob, (List.mem_tails _ _).mpr hs.1⟩

/-- The list of places is as long as their number. -/
theorem length_places (top : WireType) (shape : Shape) (body : List UInt8) :
    (ofMessage env top shape body).places.length = env.placeCount top shape body.length := by
  simp only [places, jobs, spots, scopes, ofMessage, ReadEnv.placeCount, List.length_product,
    List.length_append, List.length_map, List.length_range, List.length_tails, List.length_cons,
    List.length_nil, Nat.zero_add, Nat.reduceAdd]

end Lists

/-- Readers of a message that do not end with as many calls as there are places never end. -/
theorem unfinished_of_placeCount_le {env : ReadEnv} {top : WireType} {shape : Shape}
    {body : List UInt8} {α : Type} {R : Nat → Read α} {post : α → Prop}
    (hR : (ofMessage env top shape body).realm.Traced (fun _ => True) R post) {s : ReadState}
    (hs : (ofMessage env top shape body).realm.Inside s) {n : Nat}
    (hn : env.placeCount top shape body.length ≤ n) (hstuck : Unfinished (R n s)) (k : Nat) :
    Unfinished (R k s) := by
  have hlength : (ofMessage env top shape body).places.length ≤ n := by
    rwa [length_places]
  exact stepwise.unfinished_of_length_le (fun _ _ hjob ht => mem_places _ hjob ht) hR hs hlength
    hstuck k

end World

end SchemaWire
