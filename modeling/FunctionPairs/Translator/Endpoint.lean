/-!
The address of a translation server.
-/
namespace FunctionPairs.Endpoint

def schemes : List String := ["http://", "https://"]

def ofAddress (address : String) : String :=
  if schemes.any fun s => s.toList.isPrefixOf address.toList then address
  else "http://" ++ address

end FunctionPairs.Endpoint
