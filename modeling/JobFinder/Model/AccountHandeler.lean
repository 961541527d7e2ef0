/-
# Model.AccountHandeler -- registering an account

`RegisterUser` asks for an account, and when the answer comes it issues the write
of the profile and reports success at once, without waiting for the write.  What
it stores was captured when it was called.
-/
import JobFinder.Database.Users

namespace JobFinder.Model

open JobFinder.Theory JobFinder.Database

set_option autoImplicit false

/-- The data `RegisterUser` and `LoginUser` work with. -/
structure AccountHandeler where
  email : String
  password : String
  firstName : String
  lastName : String
  accountType : String
deriving DecidableEq, Repr

/-- The account that the authentication service has created. -/
structure AuthDataResult where
  uid : String
  providerID : String
  email : String
deriving DecidableEq, Repr

/-- A profile write that has been issued. -/
structure ProfileWrite where
  uid : String
  userData : Profile
deriving DecidableEq, Repr

namespace AccountHandeler

/-- The callback of `RegisterUser`: the profile write it issues, if any, and the
status it reports. -/
def registerUser (self : AccountHandeler) :
    Option AuthDataResult → Option ProfileWrite × Bool
  | none => (none, false)
  | some authDataResult =>
      (some ⟨authDataResult.uid, ⟨authDataResult.providerID, authDataResult.email,
        self.firstName, self.lastName, self.accountType⟩⟩, true)

end AccountHandeler

end JobFinder.Model
