import Henji.Json
import Henji.Library.InsMap

/-!
# The stored model catalog

A provider's catalog file holds the favourite models and, for each known model, the efforts it takes
and the one that was chosen last. A missing file is seeded from the declaration. `favorite` and
`remember` are updates of the catalog; a catalog that was written is read back as it was.

The order of a record's keys is that of their first insertion.
-/

namespace Henji

inductive ReasoningEffort where
  | auto
  | none
  | minimal
  | low
  | medium
  | high
  | xhigh
  | max
deriving DecidableEq, Repr

namespace ReasoningEffort

def text : ReasoningEffort → JsText
  | auto => js "auto"
  | none => js "none"
  | minimal => js "minimal"
  | low => js "low"
  | medium => js "medium"
  | high => js "high"
  | xhigh => js "xhigh"
  | max => js "max"

def REASONING_EFFORTS : List ReasoningEffort :=
  [auto, none, minimal, low, medium, high, xhigh, max]

/-- `isReasoningEffort`, with the effort that the value is. -/
def ofJson : Json → Option ReasoningEffort
  | .str value => REASONING_EFFORTS.find? fun effort => effort.text == value
  | _ => .none

theorem ofJson_text (effort : ReasoningEffort) : ofJson (.str effort.text) = some effort := by
  cases effort <;> decide

end ReasoningEffort

namespace ModelCatalog

/-! ## The catalog and its file -/

structure CatalogModel where
  defaultEffort : Option ReasoningEffort
  efforts : Option (List ReasoningEffort)
deriving DecidableEq, Repr

structure StoredCatalog where
  favorites : List JsText
  models : InsMap JsText CatalogModel
deriving DecidableEq

def textOfJson : Json → Option JsText
  | .str value => some value
  | _ => none

def validateModel : Json → Option CatalogModel
  | .obj fields => do
    let defaultEffort ← match fields.lookup (js "defaultEffort") with
      | none => some none
      | some value => (ReasoningEffort.ofJson value).map some
    let efforts ← match fields.lookup (js "efforts") with
      | none => some none
      | some (.arr values) => (values.mapM ReasoningEffort.ofJson).map some
      | some _ => none
    return { defaultEffort, efforts }
  | _ => none

/-- The catalog of a file; `none` where the read fails. -/
def validateStoredCatalog : Json → Option StoredCatalog
  | .obj fields =>
    match fields.lookup (js "favorites"), fields.lookup (js "models") with
    | some (.arr values), some (.obj entries) => do
      let favorites ← values.mapM textOfJson
      let models ← entries.mapM fun (modelId, raw) => (validateModel raw).map fun model =>
        (modelId, model)
      return {
        favorites
        models := .ofEntries models }
    | _, _ => none
  | _ => none

def CatalogModel.json (model : CatalogModel) : Json :=
  .obj ((model.defaultEffort.map fun effort => (js "defaultEffort", .str effort.text)).toList ++
    (model.efforts.map fun efforts =>
      (js "efforts", .arr (efforts.map fun effort => .str effort.text))).toList)

/-- What the file of a catalog holds. -/
def StoredCatalog.json (catalog : StoredCatalog) : Json :=
  .obj [(js "favorites", .arr (catalog.favorites.map .str)),
    (js "models", .obj (catalog.models.entries.map fun (modelId, model) => (modelId, model.json)))]

theorem mapM_map_of {α β γ : Type} {f : α → β} {g : β → Option γ} {h : α → γ}
    (hinverse : ∀ a, g (f a) = some (h a)) (items : List α) :
    (items.map f).mapM g = some (items.map h) := by
  induction items with
  | nil => rfl
  | cons item items ih => simp [List.mapM_cons, hinverse, ih]

theorem validateModel_json (model : CatalogModel) : validateModel model.json = some model := by
  obtain ⟨defaultEffort, efforts⟩ := model
  have hvalues : ∀ values : List ReasoningEffort,
      (values.map fun effort => Json.str effort.text).mapM ReasoningEffort.ofJson = some values := by
    intro values
    simpa using mapM_map_of ReasoningEffort.ofJson_text values
  have hother : (js "efforts" == js "defaultEffort") = false := by decide
  have hsymm : (js "defaultEffort" == js "efforts") = false := by decide
  have heffort := ReasoningEffort.ofJson_text
  cases defaultEffort with
  | none =>
    cases efforts with
    | none => rfl
    | some values => simp [CatalogModel.json, validateModel, List.lookup_cons, hsymm, hvalues]
  | some effort =>
    cases efforts with
    | none => simp [CatalogModel.json, validateModel, List.lookup_cons, hother, heffort]
    | some values =>
      simp [CatalogModel.json, validateModel, List.lookup_cons, hother, heffort, hvalues]

/-- A written catalog is read back. -/
theorem validateStoredCatalog_json (catalog : StoredCatalog) :
    validateStoredCatalog catalog.json = some catalog := by
  obtain ⟨favorites, models⟩ := catalog
  have hother : (js "models" == js "favorites") = false := by decide
  have hfavorites : (favorites.map Json.str).mapM textOfJson = some favorites := by
    have hinverse : ∀ text, textOfJson (.str text) = some (id text) := fun _ => rfl
    rw [mapM_map_of hinverse, List.map_id]
  have hmodels : (models.entries.map fun entry => (entry.1, entry.2.json)).mapM
      (fun entry => (validateModel entry.2).map fun model => (entry.1, model)) =
        some models.entries := by
    have hinverse : ∀ entry : JsText × CatalogModel,
        (validateModel entry.2.json).map (fun model => (entry.1, model)) = some (id entry) := by
      intro entry
      rw [validateModel_json]
      rfl
    rw [mapM_map_of hinverse, List.map_id]
  simp only [StoredCatalog.json, validateStoredCatalog, List.lookup_cons, hother, BEq.rfl, hfavorites,
    hmodels]
  exact congrArg (fun models => some (StoredCatalog.mk favorites models))
    (InsMap.ofEntries_entries models)

/-! ## Declarations and snapshots -/

structure CatalogEntry where
  modelId : JsText
  defaultEffort : ReasoningEffort
  efforts : List ReasoningEffort
  pinned : Bool
deriving DecidableEq

/-- What the catalog reads of a provider's declaration. `listed` is the source `catalog` of the model
list, `external` the mark of an external declaration, and `accounts` a provider with a catalog for
each account. -/
structure Declaration where
  entries : List CatalogEntry
  listed : Bool
  external : Bool
  accounts : Bool
deriving DecidableEq

structure ModelSnapshot where
  models : List JsText
  metadata : InsMap JsText (List ReasoningEffort)
deriving DecidableEq

def withPinnedModels (declaration : Declaration) (models : List JsText) : List JsText :=
  models ++ (declaration.entries.filter fun entry =>
    entry.pinned && !models.contains entry.modelId).map CatalogEntry.modelId

def declaredSnapshot (declaration : Declaration) : ModelSnapshot where
  models := declaration.entries.map CatalogEntry.modelId
  metadata := .ofEntries (declaration.entries.map fun entry => (entry.modelId, entry.efforts))

def seedCatalog (declaration : Declaration) : StoredCatalog where
  favorites := declaration.entries.map CatalogEntry.modelId
  models := .ofEntries (declaration.entries.map fun entry => (entry.modelId, {
    defaultEffort := some entry.defaultEffort
    efforts := some entry.efforts }))

/-! ## Updates -/

def uniqueEfforts (values : List ReasoningEffort) : List ReasoningEffort :=
  values.foldl (fun result value => if result.contains value then result else result ++ [value])
    [.auto]

/-- The members that every object has. -/
def inheritedNames : List JsText := [js "constructor", js "__defineGetter__", js "__defineSetter__",
  js "hasOwnProperty", js "__lookupGetter__", js "__lookupSetter__", js "isPrototypeOf",
  js "propertyIsEnumerable", js "toString", js "valueOf", js "toLocaleString"]

/-- `models[modelId] = change(models[modelId] ?? {})`. An inherited member is a function, which the
file leaves out. -/
def changeModel (models : InsMap JsText CatalogModel) (modelId : JsText)
    (change : CatalogModel → CatalogModel) : InsMap JsText CatalogModel :=
  match models.get? modelId with
  | some model => models.set modelId (change model)
  | none =>
    if inheritedNames.contains modelId then models
    else models.set modelId (change {
      defaultEffort := none
      efforts := none })

/-- A call that writes the catalog; a favourite with the snapshot that it found. -/
inductive Update where
  | favorite (snapshot : ModelSnapshot) (modelId : JsText) (chosen : Bool)
  | remember (modelId : JsText) (effort : ReasoningEffort)
deriving DecidableEq

/-- The efforts of a favourite that are known. -/
def knownEfforts (declaration : Declaration) (snapshot : ModelSnapshot) (modelId : JsText) :
    Option (List ReasoningEffort) :=
  match declaration.entries.find? fun entry => entry.modelId == modelId with
  | some fixed =>
    if fixed.pinned || declaration.external || declaration.listed then some fixed.efforts
    else snapshot.metadata.get? modelId
  | none => snapshot.metadata.get? modelId

def storeFavorite (declaration : Declaration) (snapshot : ModelSnapshot) (modelId : JsText)
    (model : CatalogModel) : CatalogModel where
  efforts := match knownEfforts declaration snapshot modelId with
    | some known => some (uniqueEfforts known)
    | none => model.efforts
  defaultEffort := some (model.defaultEffort.getD
    (((declaration.entries.find? fun entry => entry.modelId == modelId).map
      CatalogEntry.defaultEffort).getD .auto))

/-- The catalog that the call writes, from the one that it read. -/
def Update.apply (declaration : Declaration) (catalog : StoredCatalog) : Update → StoredCatalog
  | .favorite snapshot modelId chosen =>
    let favorites := catalog.favorites.eraseDups
    { favorites :=
        if chosen then
          if favorites.contains modelId then favorites else favorites ++ [modelId]
        else favorites.erase modelId
      models :=
        if chosen && snapshot.models.contains modelId then
          changeModel catalog.models modelId (storeFavorite declaration snapshot modelId)
        else catalog.models }
  | .remember modelId effort =>
    { catalog with
      models := changeModel catalog.models modelId fun model => { model with
        defaultEffort := some effort } }

end ModelCatalog

end Henji
