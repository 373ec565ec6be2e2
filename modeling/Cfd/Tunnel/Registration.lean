import Cfd.Base.Text

/-!
# Registration requests

The data of `src/include/cfd/registration.hpp` that a connection registers with.
-/

set_option autoImplicit false

namespace Cfd.Tunnel

open Cfd.Base

/-- `TunnelAuth`; the secret is decoded. -/
structure TunnelAuth where
  accountTag : Text
  tunnelSecret : Text

/-- `RegisterRequest`. -/
structure RegisterRequest where
  auth : TunnelAuth
  tunnelUuid : Vector UInt8 16
  connIndex : UInt8 := 0
  version : Text := ascii "cfd-cpp/0.1.0"
  arch : Text
  features : List Text

end Cfd.Tunnel
