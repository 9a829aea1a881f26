import SnifferStaSend.CString
import SnifferStaSend.Strtok
import SnifferStaSend.Atoi
import SnifferStaSend.IntArith
import SnifferStaSend.Reading
import SnifferStaSend.Loop
import SnifferStaSend.Memory
import SnifferStaSend.Printf
import SnifferStaSend.Nvs
import SnifferStaSend.GetSettings
import SnifferStaSend.SettingsMessage
import SnifferStaSend.FieldExtraction
import SnifferStaSend.SockServer
import SnifferStaSend.ParserSafety
import SnifferStaSend.ParserMemory
import SnifferStaSend.SettingsRecord
import SnifferStaSend.RomSettings
import SnifferStaSend.HexText
import SnifferStaSend.EventTask
import SnifferStaSend.NvsApi
import SnifferStaSend.NvsStartUp
import SnifferStaSend.SockClient
import SnifferStaSend.EthTask
import SnifferStaSend.SockApi
import SnifferStaSend.AcceptedSettings
import SnifferStaSend.Sniffer
import SnifferStaSend.ReportPeriod
import SnifferStaSend.Station
import SnifferStaSend.Reconnect
import SnifferStaSend.ApSta
import SnifferStaSend.SendPath
import SnifferStaSend.SendStatistics
import SnifferStaSend.Ota
import SnifferStaSend.OtaBootSwitch
import SnifferStaSend.OtaRun
import SnifferStaSend.OtaTermination
import SnifferStaSend.OtaHandle
import SnifferStaSend.OtaClient
import SnifferStaSend.OtaVersionGate
import SnifferStaSend.OtaChunking
import SnifferStaSend.OtaDevice
import SnifferStaSend.Mealy
import SnifferStaSend.PacketReport
import SnifferStaSend.PacketReads
import SnifferStaSend.LogWindow
import SnifferStaSend.ConsoleLog
import SnifferStaSend.SettingsGrammar
import SnifferStaSend.Recognisers
import SnifferStaSend.Durability
