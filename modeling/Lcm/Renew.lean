import Lcm.Issue.Certificates
import Mathlib.Data.Rat.Floor

/-!
# The renewal scheduler

`renew.go`: a pass scans for certificates close to expiry and renews each of them in a worker
of its own. The deployment wires the scheduler to `RenewSystem`. The fraction of the
configuration is taken as a rational.
-/

namespace Lcm.Renew

open Conc Db Svc

variable (P : Platform)

def maxBatch : Nat := 256

/-- `time.Duration(float64(d) * f)`. -/
def scale (d : Duration) (f : Rat) : Duration := ⌊(d : Rat) * f⌋

/-- The longest `Duration`: 2^63 - 1 nanoseconds, here in whole microseconds. -/
def maxDuration : Duration := (2 ^ 63 - 1) / 1000

/-- `t.Sub(u)`, which stops at the longest `Duration`. -/
def sub (t u : Time) : Duration := max (-maxDuration) (min (t - u) maxDuration)

/-- `window`: how far before its expiry the certificate is renewed. -/
def window (c : IssuedCertificate) : Duration :=
  let totalTTL := sub c.notAfter c.notBefore
  if totalTTL ≤ 0 then P.longLivedWindow
  else if totalTTL ≤ P.longLivedWindow then scale totalTTL P.shortLivedFraction
  else
    let w := scale totalTTL (1 - P.shortLivedFraction)
    if P.longLivedWindow > w then P.longLivedWindow else w

def due (c : IssuedCertificate) (now : Time) : Bool := decide (c.notAfter - window P c ≤ now)

def maxWindow : Duration :=
  let w := scale (Issue.maxValiditySeconds * second) (1 - P.shortLivedFraction)
  if P.longLivedWindow > w then P.longLivedWindow else w

/-- Hand the due certificates to the workers, until the context ends. -/
def handOut : List IssuedCertificate → Svc Unit
  | [] => pure ()
  | c :: cs => do
    let stop ← ask Env.cancelled fun _ => .look
    if stop then pure ()
    else
      fork (.renewOne c)
      handOut cs

/-- `RunOnce`. The scan is one transaction; each certificate is renewed by a worker, as a
call of its own. -/
def runOnce : Svc Unit := do
  let now ← Svc.now
  let rows ← repo .dueForRenewal (Sql.dueForRenewal now (now + maxWindow P) maxBatch)
  handOut (rows.filter fun c => due P c now)

/-- `renewOne`: errors are logged and skipped. -/
def renewOne (cert : IssuedCertificate) : Svc Bool := do
  let r ← attempt (Issue.renewSystem P cert.tenantID cert.id)
  match r with
  | .ok _ => pure true
  | .error _ => pure false

end Lcm.Renew
