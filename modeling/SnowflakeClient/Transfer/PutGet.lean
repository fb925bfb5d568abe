import SnowflakeClient.CInt
import SnowflakeClient.Util.Platform

/-!
# The response to a PUT or GET command

`StatementPutGet::parsePutGetCommand` (`cpp/StatementPutGet.cpp`): the reply of the server, as the C
library keeps it (`SF_PUT_GET_RESPONSE`), goes into the `PutGetParseResponse` of the caller.
-/

namespace Snowflake

inductive CommandType where
  | upload
  | download
  | unknown
  deriving DecidableEq, Repr

inductive StageType where
  | s3
  | azure
  | localFs
  | mocked
  deriving DecidableEq, Repr

structure EncryptionMaterial where
  queryStageMasterKey : String
  queryId : String
  smkId : Int
  deriving DecidableEq, Repr

structure StageInfo where
  stageType : StageType
  location : String
  path : String
  region : String
  credentials : List (String × String)
  deriving DecidableEq, Repr

structure PutGetParseResponse where
  parallel : Int
  autoCompress : Bool
  overwrite : Bool
  clientShowEncryptionParameter : Bool
  sourceCompression : String
  localLocation : String
  command : CommandType
  srcLocations : List String
  encryptionMaterials : List EncryptionMaterial
  stageInfo : StageInfo
  deriving DecidableEq, Repr

/-- `SF_STAGE_INFO` with its `SF_STAGE_CRED`. -/
structure SfStageInfo where
  locationType : String
  location : String
  path : String
  region : String
  awsKeyId : String
  awsSecretKey : String
  awsToken : String
  deriving DecidableEq, Repr

/-- `SF_PUT_GET_RESPONSE`. `srcList` and `encMatGet` are the arrays of the reply. -/
structure SfPutGetResponse where
  srcList : List String
  command : String
  parallel : Int
  autoCompress : Bool
  overwrite : Bool
  clientShowEncryptionParam : Bool
  sourceCompression : String
  encMatPut : EncryptionMaterial
  encMatGet : List EncryptionMaterial
  stageInfo : SfStageInfo
  localLocation : String
  deriving DecidableEq, Repr

namespace SfPutGetResponse

def commandType (r : SfPutGetResponse) : CommandType :=
  if sfStrncasecmp r.command.toList "UPLOAD".toList 6 = 0 then .upload
  else if sfStrncasecmp r.command.toList "DOWNLOAD".toList 8 = 0 then .download
  else .unknown

/-- The encryption materials that the reply has for its command. -/
def materials (r : SfPutGetResponse) : List EncryptionMaterial :=
  match r.commandType with
  | .upload => [r.encMatPut]
  | .download => r.encMatGet
  | .unknown => []

/-- The stage type of a known location type. -/
def stageType? (r : SfPutGetResponse) : Option StageType :=
  if sfStrncasecmp r.stageInfo.locationType.toList "s3".toList 2 = 0 then some .s3
  else if sfStrncasecmp r.stageInfo.locationType.toList "azure".toList 5 = 0 then some .azure
  else if sfStrncasecmp r.stageInfo.locationType.toList "local_fs".toList 8 = 0 then some .localFs
  else none

end SfPutGetResponse

/-- `StatementPutGet::parsePutGetCommand` after the query. Source locations and materials are added
at the end of the vectors; an unknown location type leaves the stage type as it was. -/
def parsePutGetCommand (r : SfPutGetResponse) (response : PutGetParseResponse) :
    PutGetParseResponse where
  parallel := CInt.toI32 r.parallel
  autoCompress := r.autoCompress
  overwrite := r.overwrite
  clientShowEncryptionParameter := r.clientShowEncryptionParam
  sourceCompression := r.sourceCompression
  localLocation := r.localLocation
  command := r.commandType
  srcLocations := response.srcLocations ++ r.srcList
  encryptionMaterials := response.encryptionMaterials ++ r.materials
  stageInfo :=
    { stageType := r.stageType?.getD response.stageInfo.stageType
      location := r.stageInfo.location
      path := r.stageInfo.path
      region := r.stageInfo.region
      credentials :=
        [("AWS_KEY_ID", r.stageInfo.awsKeyId), ("AWS_SECRET_KEY", r.stageInfo.awsSecretKey),
          ("AWS_TOKEN", r.stageInfo.awsToken)] }

end Snowflake
