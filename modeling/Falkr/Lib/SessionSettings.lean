import Mathlib.Data.List.Basic

/-!
# SessionSettings — the settings of a database session

A setting has a value for the session and may have one for the open transaction, which then goes
first.  When the transaction ends, its values are gone; of a setting that only the transaction had,
the session keeps the name, with the empty text as its value.
-/

namespace Falkr
namespace Lib

structure SessionSettings where
  session : List (String × String)
  transaction : List (String × String)
  deriving DecidableEq

namespace SessionSettings

/-- A session that nothing has been set in. -/
def initial : SessionSettings where
  session := []
  transaction := []

/-- `current_setting(name, true)`: absent when the session does not know the name. -/
def current (self : SessionSettings) (name : String) : Option String :=
  (self.transaction.lookup name).or (self.session.lookup name)

/-- `set_config(name, value, true)`. -/
def setLocal (self : SessionSettings) (name value : String) : SessionSettings :=
  { self with transaction := (name, value) :: self.transaction }

/-- After a commit or a rollback. -/
def endTransaction (self : SessionSettings) : SessionSettings where
  session := self.session ++
    (self.transaction.filter fun setting => (self.session.lookup setting.1).isNone).map
      fun setting => (setting.1, "")
  transaction := []

/-- The session itself has no value for the name, or an empty one. -/
def Blank (self : SessionSettings) (name : String) : Prop :=
  ∀ value, self.session.lookup name = some value → value = ""

variable {self : SessionSettings} {name : String}

theorem blank_initial : initial.Blank name := by
  intro value h
  cases h

@[simp] theorem current_setLocal (value : String) :
    (self.setLocal name value).current name = some value := by
  simp [current, setLocal]

theorem Blank.setLocal (h : self.Blank name) (other value : String) :
    (self.setLocal other value).Blank name := h

theorem current_of_no_transaction (h : self.transaction = []) :
    self.current name = self.session.lookup name := by
  simp [current, h]

@[simp] theorem transaction_endTransaction : self.endTransaction.transaction = [] := rfl

theorem eq_of_lookup_map {names : List (String × String)} {value : String}
    (h : (names.map fun setting => (setting.1, "")).lookup name = some value) : value = "" := by
  induction names with
  | nil => cases h
  | cons setting names ih =>
      rw [List.map_cons, List.lookup_cons] at h
      cases hname : name == setting.1 with
      | true =>
          rw [hname] at h
          cases h
          rfl
      | false =>
          rw [hname] at h
          exact ih h

/-- The end of a transaction leaves no value of it behind. -/
theorem Blank.endTransaction (h : self.Blank name) : self.endTransaction.Blank name := by
  intro value hvalue
  rw [SessionSettings.endTransaction, List.lookup_append] at hvalue
  -- A name that the session had keeps its value; one of the transaction's alone is emptied.
  cases hsession : self.session.lookup name with
  | some old =>
      rw [hsession] at hvalue
      cases hvalue
      exact h _ hsession
  | none =>
      rw [hsession] at hvalue
      exact eq_of_lookup_map hvalue

end SessionSettings

end Lib
end Falkr
