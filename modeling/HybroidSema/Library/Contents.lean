import HybroidSema.Value.Declared

/-!
# What the libraries declare

The libraries are data: public constants and functions, enums and type aliases that user code
reaches by `Library::Name` or after `use Library`.

* `Library.functions`, `Library.constants`, `Library.enums` and `Library.aliases` are the tables
  as lists.
* `Library.contents` has the same with the look-ups that the analyzer needs.
* `isOfficialEntity`: the engine entities, which only an entity test can name.
-/

namespace HybroidSema

namespace Library

/-! ## Functions and constants -/

/-- A function of a library. -/
def fn (name : String) (params returns : List Ty) : String × Signature :=
  (name, { params := params, returns := returns })

/-- A function of a library with one generic parameter `T`. -/
def fnT (name : String) (params returns : List Ty) : String × Signature :=
  (name, { generics := ["T"], params := params, returns := returns })

/-- An enum of the engine library. -/
def engineEnum (name : String) : Ty := .enum (.ofLibrary .pewpew) name

/-- The functions of the implicitly visible library. -/
def builtinFunctions : List (String × Signature) :=
  [ fn "ToString" [.object] [.text],
    fn "ParseSound" [.text] [.text] ]

/-- The entry points of the engine. -/
def pewpewFunctions : List (String × Signature) :=
  let fixed : Ty := .fixed .fixed
  let radian : Ty := .fixed .radian
  let entity : Ty := .rawEntity
  [ fn "Print" [.text] [],
    fn "PrintDebugInfo" [] [],
    fn "SetLevelSize" [fixed, fixed] [],
    fn "AddWall" [fixed, fixed, fixed, fixed] [.number],
    fn "RemoveWall" [.number] [],
    fn "AddUpdateCallback" [.fn [] []] [],
    fn "GetNumberOfPlayers" [] [.number],
    fn "IncreaseScore" [.number, .number] [],
    fn "GetPlayerScore" [.number] [.number],
    fn "StopGame" [] [],
    fn "GetAllEntities" [] [.list entity],
    fn "GetEntitiesInRadius" [fixed, fixed, fixed] [.list entity],
    fn "GetEntityCount" [engineEnum "EntityType"] [.number],
    fn "GetEntityType" [entity] [engineEnum "EntityType"],
    fn "NewEntity" [fixed, fixed] [entity],
    fn "NewAsteroid" [fixed, fixed] [entity],
    fn "NewAsteroidWithSize" [fixed, fixed, engineEnum "AsteroidSize"] [entity],
    fn "NewMothership" [fixed, fixed, engineEnum "MothershipType", fixed] [entity],
    fn "NewPointonium" [fixed, fixed, .number] [entity],
    fn "NewFloatingMessage" [fixed, fixed, .text] [entity],
    fn "GetEntityPosition" [entity] [fixed, fixed],
    fn "SetEntityPosition" [entity, fixed, fixed] [],
    fn "EntityMove" [entity, fixed, fixed] [],
    fn "SetEntityRadius" [entity, fixed] [],
    fn "IsEntityAlive" [entity] [.bool],
    fn "IsEntityBeingDestroyed" [entity] [.bool],
    fn "DestroyEntity" [entity] [],
    fn "ExplodeEntity" [entity, .number] [],
    fn "SpawnEntity" [entity, .number] [],
    fn "SetEntityMeshAngle" [entity, radian, fixed, fixed, fixed] [],
    fn "SetEntityTag" [entity, .number] [],
    fn "GetEntityTag" [entity] [.number] ]

/-- Fixed-point math. -/
def fmathFunctions : List (String × Signature) :=
  let fixed : Ty := .fixed .fixed
  let radian : Ty := .fixed .radian
  [ fn "MaxFixed" [] [fixed],
    fn "RandomFixed" [fixed, fixed] [fixed],
    fn "RandomNumber" [.number, .number] [.number],
    fn "Sqrt" [fixed] [fixed],
    fn "FromFraction" [.number, .number] [fixed],
    fn "ToNumber" [fixed] [.number],
    fn "ToFixed" [.number] [fixed],
    fn "AbsFixed" [fixed] [fixed],
    fn "Sincos" [radian] [fixed, fixed],
    fn "Atan2" [fixed, fixed] [radian],
    fn "Tau" [] [radian] ]

/-- Floating-point math. -/
def mathFunctions : List (String × Signature) :=
  let num : Ty := .number
  [ fn "Abs" [num] [num],
    fn "Ceil" [num] [num],
    fn "Floor" [num] [num],
    fn "Sqrt" [num] [num],
    fn "Sin" [num] [num],
    fn "Cos" [num] [num],
    fn "Tan" [num] [num],
    fn "Exp" [num] [num],
    fn "Log" [num] [num],
    fn "Deg" [num] [num],
    fn "Rad" [num] [num],
    fn "ToInt" [num] [num],
    fn "Fmod" [num, num] [num],
    fn "Modf" [num] [num, num],
    fn "Max" [num, .variadic num] [num],
    fn "Min" [num, .variadic num] [num],
    fn "Random" [num, num] [num],
    fn "Type" [.object] [.text] ]

/-- Text helpers. -/
def stringFunctions : List (String × Signature) :=
  let num : Ty := .number
  [ fn "Byte" [.text, num] [num],
    fn "Char" [.variadic num] [.text],
    fn "Find" [.text, .text] [num, num],
    fn "Format" [.text, .variadic .object] [.text],
    fn "Gsub" [.text, .text, .text] [.text, num],
    fn "Len" [.text] [num],
    fn "Lower" [.text] [.text],
    fn "Upper" [.text] [.text],
    fn "Rep" [.text, num] [.text],
    fn "Reverse" [.text] [.text],
    fn "Sub" [.text, num, num] [.text] ]

/-- List helpers. -/
def tableFunctions : List (String × Signature) :=
  let t : Ty := .generic "T"
  [ fn "Concat" [.list .text, .text] [.text],
    fnT "Insert" [.list t, t] [],
    fnT "InsertAt" [.list t, .number, t] [],
    fnT "Remove" [.list t, .number] [t],
    fnT "Sort" [.list t] [] ]

/-- The functions of a library. -/
def functions : Library → List (String × Signature)
  | builtin => builtinFunctions
  | pewpew => pewpewFunctions
  | fmath => fmathFunctions
  | math => mathFunctions
  | string => stringFunctions
  | table => tableFunctions

/-- The constants of a library that are no functions; all of them are numbers. -/
def constants : Library → List String
  | math => ["Pi", "Huge", "MaxInt", "MinInt"]
  | _ => []

/-! ## Enums and aliases -/

/-- The enums of a library with their fields in order. -/
def enums : Library → List (String × List String)
  | pewpew =>
    [ ("EntityType",
        ["Asteroid", "YellowBaf", "Inertiac", "Mothership", "MothershipBullet", "RollingCube",
          "RollingSphere", "Ufo", "Wary", "Crowder", "CustomizableEntity", "Ship", "Bomb",
          "BlueBaf", "RedBaf", "WaryMissile", "UfoBullet", "PlayerBullet", "BombExplosion",
          "PlayerExplosion", "Bonus", "FloatingMessage", "Pointonium", "BonusImplosion", "Mace",
          "PlasmaField"]),
      ("MothershipType", ["Triangle", "Square", "Pentagon", "Hexagon", "Heptagon"]),
      ("CannonType",
        ["Single", "TicToc", "Double", "Triple", "FourDirections", "DoubleSwipe", "Hemisphere",
          "Shotgun", "Laser"]),
      ("CannonFreq",
        ["Freq30", "Freq15", "Freq10", "Freq7_5", "Freq6", "Freq5", "Freq3", "Freq2", "Freq1"]),
      ("BombType", ["Freeze", "Repulsive", "Atomize", "SmallAtomize", "SmallFreeze"]),
      ("MaceType", ["DamagePlayers", "DamageEntities"]),
      ("BonusType", ["Reinstantiation", "Shield", "Speed", "Weapon", "Mace"]),
      ("WeaponType",
        ["Bullet", "FreezeExplosion", "RepulsiveExplosion", "AtomizeExplosion", "PlasmaField",
          "WallTrailLasso", "Mace"]),
      ("AsteroidSize", ["Small", "Medium", "Large", "VeryLarge"]) ]
  | _ => []

/-- The type aliases of a library. -/
def aliases : Library → List (String × Ty)
  | builtin =>
    let vertex : Ty := .list .number
    [ ("Vertex", vertex),
      ("Vertexes", .list vertex),
      ("Segment", vertex),
      ("Segments", .list vertex),
      ("Colors", vertex) ]
  | _ => []

/-! ## Look-ups -/

/-- The tables of a library. -/
structure Contents where
  bindings : Table Variable
  enums : Table EnumInfo
  aliases : Table AliasInfo

/-- A public constant of a library. -/
def member (name : String) (value : Value) : String × Variable :=
  (name, { name := name, value := value, span := .synthetic, isPub := true, isConst := true })

/-- The tables of a library: every member is a public constant. -/
def contents (library : Library) : Contents where
  bindings := .ofList (library.constants.map (member · (.number none)) ++
    library.functions.map fun (name, signature) => member name (.function signature))
  enums := .ofList (library.enums.map fun (name, fields) =>
    (name, ⟨⟨.ofLibrary library, name⟩, .synthetic, true, fields⟩))
  aliases := .ofList (library.aliases.map fun (name, ty) => (name, ⟨ty, .synthetic, true⟩))

/-- A constant or function of a library. -/
def binding? (library : Library) (name : String) : Option Variable :=
  library.contents.bindings.get? name

/-- An enum of a library. -/
def enum? (library : Library) (name : String) : Option EnumInfo :=
  library.contents.enums.get? name

/-- An alias of a library. -/
def alias? (library : Library) (name : String) : Option AliasInfo :=
  library.contents.aliases.get? name

/-- The type that a name stands for in a library: an enum or an alias. -/
def type? (library : Library) (name : String) : Option Ty :=
  (library.enum? name).map (fun _ => .enum (.ofLibrary library) name) <|>
    (library.alias? name).map (·.ty)

end Library

/-! ## Engine entities -/

/-- The entities of the engine itself. -/
def officialEntities : List String :=
  ["Asteroid", "YellowBaf", "Inertiac", "Mothership", "MothershipBullet", "RollingCube",
    "RollingSphere", "Ufo", "Wary", "Crowder", "Ship", "Bomb", "BlueBaf", "RedBaf", "WaryMissile",
    "UfoBullet", "PlayerBullet", "BombExplosion", "PlayerExplosion", "Bonus", "FloatingMessage",
    "Pointonium", "BonusImplosion", "Mace", "PlasmaField"]

/-- Whether a name is an entity of the engine. -/
def isOfficialEntity (name : String) : Bool := officialEntities.contains name

end HybroidSema
