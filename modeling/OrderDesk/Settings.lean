/-! The settings of a desk. -/

namespace OrderDesk

inductive LogFormat where
  | pretty
  | json
  deriving DecidableEq, Repr

def LogFormat.name : LogFormat → String
  | pretty => "pretty"
  | json => "json"

structure Settings where
  couriers : Int
  timeoutMillis : Int
  logFormat : LogFormat
  deriving DecidableEq, Repr

namespace Settings

def usualCouriers : Int := 5

def usualTimeout : Nat := 2000

def usual : Settings :=
  { couriers := usualCouriers, timeoutMillis := usualTimeout, logFormat := .pretty }

/-- The time that an order may take. Only a positive setting counts. -/
def requestTimeout (settings : Settings) : Nat :=
  if 0 < settings.timeoutMillis then settings.timeoutMillis.toNat else usualTimeout

theorem requestTimeout_pos (settings : Settings) : 0 < settings.requestTimeout := by
  unfold requestTimeout usualTimeout
  split <;> omega

end Settings

end OrderDesk
