/-! Where the service is reached, and as whom. -/
namespace ItemTable.Service

/-- The region that is used unless another one is set. -/
def defaultRegion : String := "us-east-1"

/-- The settings of a connection. -/
structure Settings where
  region : String := defaultRegion
  /-- An endpoint in place of the region's own. -/
  endpoint : Option String := none
  accessKey : Option String := none
  secretKey : Option String := none
deriving DecidableEq, Repr

/-- The texts of the variables that a user may set; a region may be named twice. -/
structure Variables where
  region : Option String := none
  otherRegion : Option String := none
  endpoint : Option String := none
  accessKey : Option String := none
  secretKey : Option String := none
deriving DecidableEq, Repr

/-- Keys that sign requests. -/
structure Credentials where
  accessKey : String
  secretKey : String
  sessionToken : Option String := none
deriving DecidableEq, Repr

/-- What a connection is made from. Without credentials the ones of the surroundings are used. -/
structure Connection where
  region : String
  endpoint : Option String
  credentials : Option Credentials
deriving DecidableEq, Repr

namespace Settings

def ofVariables (v : Variables) : Settings where
  region := (v.region.or v.otherRegion).getD defaultRegion
  endpoint := v.endpoint
  accessKey := v.accessKey
  secretKey := v.secretKey

def withCredentials (s : Settings) (accessKey secretKey : String) : Settings :=
  { s with accessKey := some accessKey, secretKey := some secretKey }

/-- The connection of settings. One key alone is no credentials. -/
def connection (s : Settings) : Connection where
  region := s.region
  endpoint := s.endpoint
  credentials :=
    match s.accessKey, s.secretKey with
    | some accessKey, some secretKey => some { accessKey, secretKey }
    | _, _ => none

end Settings

end ItemTable.Service
