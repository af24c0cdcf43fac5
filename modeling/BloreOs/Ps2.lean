import BloreOs.Basic

/-!
# The PS/2 keyboard (`ps2.c`)

Key events as the driver describes them, the table of all events, and the map from scan codes to
events that `ps2_init` fills from the table. A `char` is a byte.
-/

namespace BloreOs

/-- `KeyEvent_t`. `event_type` is `PS2_KEYDOWN` or `PS2_KEYUP`. -/
structure KeyEvent where
  scanCode : UInt8
  eventType : UInt8
  ascii : UInt8
  isControl : Bool
deriving DecidableEq, Repr

/-- `PS2_KEYDOWN` -/
def ps2Keydown : UInt8 := 0

/-- `PS2_SCANCODE_BACKSPACE` -/
def ps2ScancodeBackspace : UInt8 := 14

/-- `PS2_SCANCODE_ENTER` -/
def ps2ScancodeEnter : UInt8 := 28

/-- `key_map`: the UK layout. 39 and 96 are the two quotes. -/
def keyMap : List KeyEvent :=
  [
    -- Top number row.
    ⟨2, 0, chr '1', false⟩, ⟨130, 1, chr '1', false⟩, ⟨3, 0, chr '2', false⟩,
    ⟨131, 1, chr '2', false⟩, ⟨4, 0, chr '3', false⟩, ⟨132, 1, chr '3', false⟩,
    ⟨5, 0, chr '4', false⟩, ⟨133, 1, chr '4', false⟩, ⟨6, 0, chr '5', false⟩,
    ⟨134, 1, chr '5', false⟩, ⟨7, 0, chr '6', false⟩, ⟨135, 1, chr '6', false⟩,
    ⟨8, 0, chr '7', false⟩, ⟨136, 1, chr '7', false⟩, ⟨9, 0, chr '8', false⟩,
    ⟨137, 1, chr '8', false⟩, ⟨10, 0, chr '9', false⟩, ⟨138, 1, chr '9', false⟩,
    ⟨11, 0, chr '0', false⟩, ⟨139, 1, chr '0', false⟩, ⟨12, 0, chr '-', false⟩,
    ⟨140, 1, chr '-', false⟩, ⟨13, 0, chr '=', false⟩, ⟨141, 1, chr '=', false⟩,
    -- Q row.
    ⟨16, 0, chr 'q', false⟩, ⟨144, 1, chr 'q', false⟩, ⟨17, 0, chr 'w', false⟩,
    ⟨145, 1, chr 'w', false⟩, ⟨18, 0, chr 'e', false⟩, ⟨146, 1, chr 'e', false⟩,
    ⟨19, 0, chr 'r', false⟩, ⟨147, 1, chr 'r', false⟩, ⟨20, 0, chr 't', false⟩,
    ⟨148, 1, chr 't', false⟩, ⟨21, 0, chr 'y', false⟩, ⟨149, 1, chr 'y', false⟩,
    ⟨22, 0, chr 'u', false⟩, ⟨150, 1, chr 'u', false⟩, ⟨23, 0, chr 'i', false⟩,
    ⟨151, 1, chr 'i', false⟩, ⟨24, 0, chr 'o', false⟩, ⟨152, 1, chr 'o', false⟩,
    ⟨25, 0, chr 'p', false⟩, ⟨153, 1, chr 'p', false⟩, ⟨26, 0, chr '[', false⟩,
    ⟨154, 1, chr '[', false⟩, ⟨27, 0, chr ']', false⟩, ⟨155, 1, chr ']', false⟩,
    -- A row.
    ⟨30, 0, chr 'a', false⟩, ⟨158, 1, chr 'a', false⟩, ⟨31, 0, chr 's', false⟩,
    ⟨159, 1, chr 's', false⟩, ⟨32, 0, chr 'd', false⟩, ⟨160, 1, chr 'd', false⟩,
    ⟨33, 0, chr 'f', false⟩, ⟨161, 1, chr 'f', false⟩, ⟨34, 0, chr 'g', false⟩,
    ⟨162, 1, chr 'g', false⟩, ⟨35, 0, chr 'h', false⟩, ⟨163, 1, chr 'h', false⟩,
    ⟨36, 0, chr 'j', false⟩, ⟨164, 1, chr 'j', false⟩, ⟨37, 0, chr 'k', false⟩,
    ⟨165, 1, chr 'k', false⟩, ⟨38, 0, chr 'l', false⟩, ⟨166, 1, chr 'l', false⟩,
    ⟨39, 0, chr ';', false⟩, ⟨167, 1, chr ';', false⟩, ⟨40, 0, 39, false⟩,
    ⟨168, 1, 39, false⟩,
    -- Symbols.
    ⟨43, 0, chr '#', false⟩, ⟨171, 1, chr '#', false⟩, ⟨57, 0, chr ' ', false⟩,
    ⟨185, 1, chr ' ', false⟩, ⟨53, 0, chr '/', false⟩, ⟨181, 1, chr '/', false⟩,
    ⟨41, 0, 96, false⟩, ⟨169, 1, 96, false⟩,
    -- Z row.
    ⟨44, 0, chr 'z', false⟩, ⟨172, 1, chr 'z', false⟩, ⟨45, 0, chr 'x', false⟩,
    ⟨173, 1, chr 'x', false⟩, ⟨46, 0, chr 'c', false⟩, ⟨174, 1, chr 'c', false⟩,
    ⟨47, 0, chr 'v', false⟩, ⟨175, 1, chr 'v', false⟩, ⟨48, 0, chr 'b', false⟩,
    ⟨176, 1, chr 'b', false⟩, ⟨49, 0, chr 'n', false⟩, ⟨177, 1, chr 'n', false⟩,
    ⟨50, 0, chr 'm', false⟩, ⟨178, 1, chr 'm', false⟩, ⟨51, 0, chr ',', false⟩,
    ⟨179, 1, chr ',', false⟩, ⟨52, 0, chr '.', false⟩, ⟨180, 1, chr '.', false⟩,
    -- Numpad.
    ⟨71, 0, chr '7', false⟩, ⟨199, 1, chr '7', false⟩, ⟨72, 0, chr '8', false⟩,
    ⟨200, 1, chr '8', false⟩, ⟨73, 0, chr '9', false⟩, ⟨201, 1, chr '9', false⟩,
    ⟨75, 0, chr '4', false⟩, ⟨203, 1, chr '4', false⟩, ⟨76, 0, chr '5', false⟩,
    ⟨204, 1, chr '5', false⟩, ⟨77, 0, chr '6', false⟩, ⟨205, 1, chr '6', false⟩,
    ⟨79, 0, chr '1', false⟩, ⟨207, 1, chr '1', false⟩, ⟨80, 0, chr '2', false⟩,
    ⟨208, 1, chr '2', false⟩, ⟨81, 0, chr '3', false⟩, ⟨209, 1, chr '3', false⟩,
    ⟨82, 0, chr '0', false⟩, ⟨210, 1, chr '0', false⟩, ⟨83, 0, chr '.', false⟩,
    ⟨211, 1, chr '.', false⟩, ⟨224, 1, chr '/', false⟩, ⟨55, 0, chr '*', false⟩,
    ⟨183, 1, chr '*', false⟩, ⟨74, 0, chr '-', false⟩, ⟨202, 1, chr '-', false⟩,
    ⟨78, 0, chr '+', false⟩, ⟨206, 1, chr '+', false⟩, ⟨69, 0, 0, false⟩, ⟨197, 1, 0, false⟩,
    -- Control keys.
    ⟨28, 0, chr '\n', true⟩, ⟨156, 1, 0, true⟩, ⟨14, 0, 0, true⟩, ⟨142, 1, 0, true⟩,
    ⟨42, 0, 0, true⟩, ⟨170, 1, 0, true⟩, ⟨54, 0, 0, true⟩, ⟨182, 1, 0, true⟩, ⟨29, 0, 0, true⟩,
    ⟨157, 1, 0, true⟩, ⟨56, 0, 0, true⟩, ⟨184, 1, 0, true⟩, ⟨15, 0, chr '\t', true⟩,
    ⟨143, 1, 0, true⟩, ⟨1, 0, 0, true⟩, ⟨129, 1, 0, true⟩, ⟨58, 0, 0, true⟩, ⟨186, 1, 0, true⟩
  ]

/-- The loop body of `ps2_init` that fills `scancode_map`. -/
def registerKey (map : Nat → Option KeyEvent) (ke : KeyEvent) : Nat → Option KeyEvent :=
  Function.update map ke.scanCode.toNat (some ke)

/-- `scancode_map` as `ps2_init` leaves it. -/
def scancodeMap : Nat → Option KeyEvent := keyMap.foldl registerKey fun _ => none

theorem foldl_registerKey_mem : ∀ (l : List KeyEvent) {map : Nat → Option KeyEvent} {code : Nat}
    {ke : KeyEvent}, l.foldl registerKey map code = some ke → map code = some ke ∨ ke ∈ l
  | [], _, _, _, h => Or.inl h
  | x :: l, map, code, ke, h => by
    rcases foldl_registerKey_mem l h with hmap | hl
    · rw [registerKey, Function.update_apply] at hmap
      split at hmap
      · cases hmap
        exact Or.inr List.mem_cons_self
      · exact Or.inl hmap
    · exact Or.inr (List.mem_cons_of_mem _ hl)

/-- The map holds events of the table only. -/
theorem scancodeMap_mem {code : Nat} {ke : KeyEvent} (h : scancodeMap code = some ke) :
    ke ∈ keyMap := by
  rcases foldl_registerKey_mem keyMap h with hnone | hmem
  · cases hnone
  · exact hmem

end BloreOs
