import PocketCalculator.Session.Outcome
import PocketCalculator.Text.Quoted

/-!
# Replaying keys

A session at the keypad can be given as a text: the labels or names of keys with blanks between
them. A word that is neither ends it before anything is shown.
-/

namespace PocketCalculator

/-- A word that stands for no key. -/
structure UnknownKey where
  /-- The word. -/
  word : Text
deriving DecidableEq

def UnknownKey.message (error : UnknownKey) : Text :=
  "unknown key: ".toList ++ quoted error.word

def readKey (word : Text) : Except UnknownKey Key :=
  match Key.ofLabel? word with
  | some key => .ok key
  | none => .error ⟨word⟩

/-- The keys that words stand for, or the first word that stands for none. -/
def readKeys : List Text → Except UnknownKey (List Key)
  | [] => .ok []
  | word :: rest =>
    match readKey word, readKeys rest with
    | .ok key, .ok keys => .ok (key :: keys)
    | .ok _, .error error => .error error
    | .error error, _ => .error error

/-- The keypad after the keys of a text were pressed on a new one. -/
def replay (places : Nat) (text : Text) : Except UnknownKey Keypad :=
  match readKeys (words text) with
  | .ok keys => .ok (Keypad.pressAll places {} keys)
  | .error error => .error error

@[simp]
theorem readKeys_nil : readKeys [] = .ok [] := rfl

theorem readKey_eq_ok_iff {word : Text} {key : Key} :
    readKey word = .ok key ↔ Key.ofLabel? word = some key := by
  unfold readKey
  split <;> simp [*]

theorem readKeys_eq_ok_iff {words : List Text} {keys : List Key} :
    readKeys words = .ok keys ↔ words.map Key.ofLabel? = keys.map some := by
  induction words generalizing keys with
  | nil => cases keys <;> simp
  | cons word rest ih =>
    cases hword : readKey word with
    | error error =>
      have hnone : ∀ key, Key.ofLabel? word ≠ some key := fun key h ↦ by
        rw [readKey_eq_ok_iff.mpr h] at hword
        cases hword
      cases keys <;> simp [readKeys, hword, hnone]
    | ok key =>
      rw [readKey_eq_ok_iff] at hword
      cases hrest : readKeys rest with
      | error error =>
        have : ∀ keys : List Key, rest.map Key.ofLabel? ≠ keys.map some := fun keys h ↦ by
          rw [ih.mpr h] at hrest
          cases hrest
        cases keys <;> simp [readKeys, readKey_eq_ok_iff.mpr hword, hrest, this]
      | ok keys' =>
        have := ih.mp hrest
        cases keys with
        | nil => simp [readKeys, readKey_eq_ok_iff.mpr hword, hrest]
        | cons key' keys =>
          have hinj : keys'.map some = keys.map some ↔ keys' = keys :=
            List.map_inj_right fun _ _ h ↦ Option.some.inj h
          simp [readKeys, readKey_eq_ok_iff.mpr hword, hrest, hword, this, hinj]

end PocketCalculator
