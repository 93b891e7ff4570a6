import ClassAtlas.Error
import ClassAtlas.Mapping.Delivery
import ClassAtlas.Toml.Document

/-!
# Settings of a workspace

Settings are written as a TOML document with three sections, all of which may be left out, as may be
every key of theirs. A key that is no setting is refused, and so is a value of the wrong type.

## Main definitions

* `ClassAtlas.Settings`, `ClassAtlas.Settings.standard` — the settings, and those that hold unless
  others are written.
* `ClassAtlas.SettingsSection.collect` — the sections of a document.
* `ClassAtlas.Settings.parse` — the settings of a document.

## Design

A section may be written under a header, with dotted keys, as a table on one line, or as an array of
the values of its keys in their order. It may be written in one of these ways only.
-/

set_option autoImplicit false

namespace ClassAtlas

/-- How long and how many numbers of identities are cached. -/
structure CacheSettings where
  /-- The seconds after which a number that is not used is forgotten. -/
  idleSeconds : Nat
  /-- How many numbers are kept at most. -/
  maxCapacity : Nat
  deriving DecidableEq, Repr

/-- The settings of a workspace. -/
structure Settings where
  /-- The cache. -/
  cache : CacheSettings
  /-- The queue of events. -/
  queue : QueueSettings
  /-- How much is logged. -/
  logLevel : String
  deriving DecidableEq, Repr

/-- The settings that hold unless others are written. -/
def Settings.standard : Settings := ⟨⟨1, 1000000⟩, QueueSettings.standard, "info"⟩

/-! ### Sections -/

/-- How a section is written. -/
inductive SectionBody where
  /-- As one value. -/
  | whole (value : Toml.Value)
  /-- Key by key, under a header or with dotted keys. -/
  | keys (isDotted : Bool) (entries : List (String × Toml.Value))
  deriving Repr

/-- A section of a document. -/
structure SettingsSection where
  /-- The name. -/
  name : String
  /-- What it holds. -/
  body : SectionBody
  deriving Repr

namespace SettingsSection

/-- The sections with one more entry in the section with a name, if the section is written in the
given way and the key is not set yet. -/
def addEntry (isDotted : Bool) (name key : String) (value : Toml.Value) :
    List SettingsSection → Option (List SettingsSection)
  | [] => some [⟨name, .keys isDotted [(key, value)]⟩]
  | s :: rest =>
    if s.name = name then
      match s.body with
      | .keys dotted entries =>
        if dotted = isDotted && entries.all (·.1 != key) then
          some (⟨name, .keys dotted (entries ++ [(key, value)])⟩ :: rest)
        else none
      | .whole _ => none
    else (addEntry isDotted name key value rest).map (s :: ·)

/-- The sections with a new one. -/
def addSection (name : String) (body : SectionBody) (sections : List SettingsSection) :
    Option (List SettingsSection) :=
  if sections.any (·.name == name) then none else some (sections ++ [⟨name, body⟩])

/-- The sections of statements that follow the header with a name, if there is one. No setting is
deeper than a key of a section, and none is a list of tables. -/
def collectFrom (header : Option String) (sections : List SettingsSection) :
    List Toml.Statement → Option (List SettingsSection)
  | [] => some sections
  | .table [name] :: rest => do
    collectFrom (some name) (← addSection name (.keys false []) sections) rest
  | .assign [key] value :: rest =>
    match header with
    | some name => do collectFrom header (← addEntry false name key value sections) rest
    | none => do collectFrom header (← addSection key (.whole value) sections) rest
  | .assign [name, key] value :: rest =>
    match header with
    | some _ => none
    | none => do collectFrom header (← addEntry true name key value sections) rest
  | _ => none

/-- The sections of a document. -/
def collect (statements : List Toml.Statement) : Option (List SettingsSection) :=
  collectFrom none [] statements

/-- The entries of a table on one line, none of which has a dotted key. -/
def plainEntries (entries : List (List String × Toml.Value)) :
    Option (List (String × Toml.Value)) :=
  entries.mapM fun entry =>
    match entry.1 with
    | [key] => some (key, entry.2)
    | _ => none

/-- The entries of a section with the given keys; no other key may be set. -/
def entries (keys : List String) (s : SettingsSection) : Option (List (String × Toml.Value)) := do
  let found ←
    match s.body with
    | .keys _ entries => some entries
    | .whole (.table entries) => plainEntries entries
    | .whole (.array items) => some (keys.zip items)
    | .whole _ => none
  if found.all fun entry => keys.contains entry.1 then some found else none

end SettingsSection

/-! ### Values -/

namespace Settings

/-- A number that is not negative. -/
def number? : Toml.Value → Option Nat
  | .integer n => if 0 ≤ n then some n.toNat else none
  | _ => none

/-- A text. -/
def text? : Toml.Value → Option String
  | .text value => some value
  | _ => none

/-- The value of a key, or the standard one if the key is not set. -/
def read {α : Type} (entries : List (String × Toml.Value)) (key : String)
    (value? : Toml.Value → Option α) (standard : α) : Option α :=
  match entries.lookup key with
  | some value => value? value
  | none => some standard

/-- The settings with those of one more section. -/
def withSection (settings : Settings) (s : SettingsSection) : Option Settings :=
  match s.name with
  | "cache" => do
    let entries ← s.entries ["idle_seconds", "max_capacity"]
    let idle ← read entries "idle_seconds" number? settings.cache.idleSeconds
    let capacity ← read entries "max_capacity" number? settings.cache.maxCapacity
    return { settings with cache := ⟨idle, capacity⟩ }
  | "broker" => do
    let entries ← s.entries ["queue_capacity", "batch_size"]
    let capacity ← read entries "queue_capacity" number? settings.queue.queueCapacity
    let size ← read entries "batch_size" number? settings.queue.batchSize
    return { settings with queue := ⟨capacity, size⟩ }
  | "logging" => do
    let entries ← s.entries ["level"]
    return { settings with logLevel := ← read entries "level" text? settings.logLevel }
  | _ => none

/-- The settings that a document writes. -/
def ofDocument? (document : String) : Option Settings := do
  let sections ← SettingsSection.collect (← Toml.parse? document)
  sections.foldlM withSection standard

/-- Refuses a queue that holds nothing and batches without messages. -/
def validate (settings : Settings) : Except ConfigFault Settings :=
  if settings.queue.queueCapacity = 0 then .error (.refused "broker.queue_capacity must be >= 1")
  else if settings.queue.batchSize = 0 then .error (.refused "broker.batch_size must be >= 1")
  else .ok settings

/-- The settings of a document. -/
def parse (document : String) : Except ConfigFault Settings :=
  match ofDocument? document with
  | some settings => settings.validate
  | none => .error (.unreadable "not a document of settings")

end Settings

end ClassAtlas
