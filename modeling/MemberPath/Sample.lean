import MemberPath.Class.Universe

/-!
# A sample world

A few classes that belong together: players with their connections, creatures that extend each
other, and a vault whose content cannot be copied.
-/

namespace MemberPath.Sample

def connectionType : Nat := 0
def connection : Nat := 1
def player : Nat := 2
def pair : Nat := 3
def lobby : Nat := 4
def entity : Nat := 5
def mob : Nat := 6
def boss : Nat := 7
def label : Nat := 8
def grid : Nat := 9
def sealedBox : Nat := 10
def vault : Nat := 11
def safe : Nat := 12
def locker : Nat := 13

def classNames : List String :=
  ["ConnectionType", "Connection", "TestPlayer", "MultiFieldTest", "Lobby", "Entity", "Mob", "Boss",
    "Label", "Grid", "Sealed", "Vault", "Safe", "Locker"]

/-- A class whose fields are named with their types, the optional ones marked. -/
def classOf (id : Nat) (home name : String) (fields : List (String × Ty × Bool))
    (methods : List Method) (parent : Option Ty) : Definition where
  names := .simple (some home) name
  shape := .object {
    fields := fields.zipIdx.map fun ((name, ty, optional), i) =>
      .ofSlot (.defined id) i name ty optional
    methods
    parent }
  copy := .ok

/-- A method without parameters that reads the receiver. -/
def getter (id : Nat) (name : String) (result : Ty) (f : Value → Value) : Method :=
  .ofBody (.defined id) name [] result fun this _ => .ok (f this)

/-- What slot `i` holds; the slots of the sample classes are filled. -/
def slotOf (i : Nat) (v : Value) : Value := (v.slot? i).getD .unit

def digitsOf : Value → String
  | .int _ n => toString n
  | _ => ""

def textOf : Value → String
  | .text s => s
  | _ => ""

def countOf : Value → Nat
  | .int _ n => n.toNat
  | _ => 0

def kicked : Raised := ⟨"player was kicked", []⟩

def greeting (this : Value) (args : List Value) : String :=
  match args with
  | [other, times] =>
    String.join (List.replicate (countOf times)
      ("hi " ++ textOf other ++ ", I am " ++ textOf (slotOf 0 this) ++ ". "))
  | _ => ""

/-- The connection of a player, if it is remote. -/
def reconnected (this : Value) : Except Raised Value :=
  let c := slotOf 1 this
  if (slotOf 0 c).tag = "Remote" then .ok c else .error kicked

/-- The item that a player carries at a position. -/
def itemAt (this : Value) (args : List Value) : Except Raised Value :=
  match slotOf 2 this, args with
  | .list _ items, [i] =>
    match items[countOf i]? with
    | some v => .ok v
    | none => .error kicked
  | _, _ => .error kicked

/-- The definitions of the sample classes, by number. -/
def definitions : List Definition := [
  classOf connectionType "fixtures" "ConnectionType" [] [] none,
  classOf connection "fixtures::net" "Connection"
    [("kind", .defined connectionType, false)]
    [getter connection "get_type" (.defined connectionType) (slotOf 0)]
    none,
  classOf player "fixtures" "TestPlayer"
    [("name", .text, false), ("connection", .defined connection, false),
      ("inventory", .list .text, false)]
    [getter player "get_name" .text (slotOf 0),
      getter player "get_connection" (.defined connection) (slotOf 1),
      .ofBody (.defined player) "greet" [.text, .u8] .text
        fun this args => .ok (.text (greeting this args)),
      getter player "logout" .unit fun _ => .unit,
      .ofBody (.defined player) "reconnect" [] (.defined connection) fun this _ => reconnected this,
      .ofBody (.defined player) "item" [.u8] .text itemAt]
    none,
  classOf pair "fixtures" "MultiFieldTest" [("first", .text, false), ("last", .text, false)] [] none,
  classOf lobby "fixtures" "Lobby" [("title", .text, false), ("host", .defined player, true)] []
    none,
  classOf entity "fixtures" "Entity"
    [("id", .u32, false)]
    [getter entity "describe" .text fun this => .text ("entity #" ++ digitsOf (slotOf 0 this))]
    none,
  classOf mob "fixtures" "Mob" [("hp", .u16, false), ("id", .u32, false)] []
    (some (.defined entity)),
  classOf boss "fixtures" "Boss"
    [("loot", .list (.defined entity), false), ("pet", .defined mob, true)]
    [getter boss "minions" (.list (.defined entity)) (slotOf 0),
      .ofBody (.defined boss) "describe" [.text] .text fun this args =>
        .ok (.text (textOf (args.headD .unit) ++ digitsOf (slotOf 1 (this.base?.getD .unit))))]
    (some (.defined mob)),
  classOf label "fixtures" "Label"
    [("id", .u32, false)]
    [getter label "to_string" .text fun this => .text ("label-" ++ digitsOf (slotOf 0 this))]
    none,
  classOf grid "fixtures" "Grid" [("cells", .list (.list .u8), false)] [] none,
  { names := ⟨"fixtures::Sealed", "Sealed", "Sealed", none⟩
    shape := .leaf
    copy := fun _ => .error (.notCopyable (.defined sealedBox)) },
  classOf vault "fixtures" "Vault"
    [("id", .u32, false)]
    [getter vault "open" (.defined safe) fun this => .object safe [some (slotOf 0 this)] none ""]
    none,
  classOf safe "fixtures" "Safe"
    [("sealed", .u32, false)]
    [getter safe "locker" (.defined locker) fun _ =>
      .object locker [some (.object sealedBox [] none "")] none ""]
    none,
  classOf locker "fixtures" "Locker" [("content", .defined sealedBox, false)] [] none]

def world : Universe := (Universe.ofDefinitions? definitions.toArray).get (by decide)

def numberOf? (name : String) : Option Nat :=
  classNames.findIdx? (· == name)

end MemberPath.Sample
